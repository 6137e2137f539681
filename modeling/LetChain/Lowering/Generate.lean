import LetChain.Lowering.Body

/-! The program of a typed module. -/

namespace LetChain

def Module.main? (m : Module .typed) (mainName? : Option String) : Option (Stmt .typed) :=
  m.stmts.find? fun stmt =>
    match stmt with
    | .func name _ _ _ _ _ => some name.text = mainName?
    | _ => false

def Module.mainSymbol (m : Module .typed) (mainName? : Option String) :
    Except LowerError SymbolId :=
  match m.main? mainName? with
  | some (.func _ params _ _ _ sym) =>
    if params.isEmpty then .ok sym else .error (.entryPointParameters params.length)
  | _ => .error .missingEntryPoint

def Module.generateFrom (m : Module .typed) (symbols : Symbols) (main : SymbolId) :
    Except (Halt LowerError) Program := do
  let layout ← Layout.addStmts symbols none .empty m.stmts
  let routines ← layout.functions.mapM (·.lower layout symbols)
  let id ← layout.functionId symbols main
  return ⟨routines, layout.records, Program.entryOf id⟩

def Module.generate (m : Module .typed) (symbols : Symbols) (mainName? : Option String) :
    Except (Halt LowerError) Program := do
  let main ← (m.mainSymbol mainName?).mapError Halt.error
  m.generateFrom symbols main

end LetChain
