import LetChain.Lowering.Generate

/-! Where the code of a tree stands in a routine. -/

namespace LetChain

structure Site where
  layout : Layout
  symbols : Symbols
  routine : Routine
  locals : List SymbolId

namespace Site

section

variable (site : Site)

def Has (pc : Nat) (instr : Instr) : Prop := site.routine.code[pc]? = some instr

def Leads (label : Label) (pc : Nat) : Prop := site.routine.labels[label]? = some pc

def Slot (sym : SymbolId) (slot : Nat) : Prop := site.locals[slot]? = some sym

def BoxCode (op : Operator) (ty : Ty) (pc pc' : Nat) : Prop :=
  if op = .concat ∧ ty = .number then site.Has pc .box ∧ pc' = pc + 1 else pc' = pc

mutual

/-- The code from `pc` up to `pc'` is that of an expression, and uses no iterator below `low`. -/
inductive ExprCode : Nat → Expr .typed → Nat → Nat → Prop
  | number {low value span ty pc} : site.Has pc (.pushNumber value) →
      ExprCode low (.number value span ty) pc (pc + 1)
  | string {low value span ty pc} : site.Has pc (.pushText value) →
      ExprCode low (.string value span ty) pc (pc + 1)
  | bool {low value span ty pc} : site.Has pc (.pushBool value) →
      ExprCode low (.bool value span ty) pc (pc + 1)
  | param {low name sym span ty index pc} : (site.symbols.get sym).kind = .param index →
      site.Has pc (.loadParam index) → ExprCode low (.named name sym span ty) pc (pc + 1)
  | localVar {low name sym span ty slot pc} :
      (∀ index, (site.symbols.get sym).kind ≠ .param index) → site.Slot sym slot →
      site.Has pc (.loadLocal slot) → ExprCode low (.named name sym span ty) pc (pc + 1)
  | binary {low op lhs rhs span ty instr pc pc₁ pc₂ pc₃ pc₄} :
      Lower.binaryInstr op lhs.ty = .ok instr →
      ExprCode low lhs pc pc₁ → site.BoxCode op lhs.ty pc₁ pc₂ →
      ExprCode low rhs pc₂ pc₃ → site.BoxCode op rhs.ty pc₃ pc₄ →
      site.Has pc₄ (.binary instr) → ExprCode low (.binary op lhs rhs span ty) pc (pc₄ + 1)
  | range {low first limit span ty pc pc₁ pc₂} :
      ExprCode low first pc pc₁ → ExprCode low limit pc₁ pc₂ →
      site.Has pc₂ (.pushNumber 1) → site.Has (pc₂ + 1) .generateList →
      ExprCode low (.range first limit none span ty) pc (pc₂ + 2)
  | rangeBy {low first limit step span ty pc pc₁ pc₂ pc₃} :
      ExprCode low first pc pc₁ → ExprCode low limit pc₁ pc₂ → ExprCode low step pc₂ pc₃ →
      site.Has pc₃ .generateList →
      ExprCode low (.range first limit (some step) span ty) pc (pc₃ + 1)
  | call {low name args sym span ty index pc pc₁} : ExprsCode low args pc pc₁ →
      site.layout.functionIds[sym]? = some index → site.Has pc₁ (.call index) →
      ExprCode low (.call name args sym span ty) pc (pc₁ + 1)
  | construct {low name args sym span ty index pc pc₁} : ExprsCode low args pc pc₁ →
      site.layout.recordIds[sym]? = some index → site.Has pc₁ (.construct index) →
      ExprCode low (.construct name args sym span ty) pc (pc₁ + 1)
  | member {low base field sym span ty record id index pc pc₁} : ExprCode low base pc pc₁ →
      (site.symbols.get sym).kind = .field record index →
      site.layout.recordIds[record]? = some id → site.Has pc₁ (.loadField id index) →
      ExprCode low (.member base field sym span ty) pc (pc₁ + 1)
  | ifElse {low cond yes no span ty otherwise done pc pc₁ pc₂ pc₃} : ExprCode low cond pc pc₁ →
      site.Has pc₁ (.branchIfFalse otherwise) →
      BlockCode low yes (pc₁ + 1) pc₂ → site.Has pc₂ (.branch done) →
      site.Has (pc₂ + 1) (.mark otherwise) → site.Leads otherwise (pc₂ + 1) →
      BlockCode low no (pc₂ + 2) pc₃ → site.Has pc₃ (.mark done) → site.Leads done pc₃ →
      ExprCode low (.ifElse cond yes no span ty) pc (pc₃ + 1)
  | block {low body ty pc pc'} : BlockCode low body pc pc' →
      ExprCode low (.block body ty) pc pc'

inductive ExprsCode : Nat → List (Expr .typed) → Nat → Nat → Prop
  | nil {low pc} : ExprsCode low [] pc pc
  | cons {low first rest pc pc₁ pc'} : ExprCode low first pc pc₁ → ExprsCode low rest pc₁ pc' →
      ExprsCode low (first :: rest) pc pc'

/-- The code of chained bodies that are assigned to a slot. A loop has an iterator that the code in
its body does not use. -/
inductive ChainCode : Nat → Nat → List (Expr .typed) → Nat → Nat → Prop
  | nil {low slot pc} : ChainCode low slot [] pc pc
  | ifOnly {low slot cond yes span ty rest done pc pc₁ pc₂ pc'} : ExprCode low cond pc pc₁ →
      site.Has pc₁ (.branchIfFalse done) →
      BlockCode low yes (pc₁ + 1) pc₂ → site.Has pc₂ (.storeLocal slot) →
      site.Has (pc₂ + 1) (.mark done) → site.Leads done (pc₂ + 1) →
      ChainCode low slot rest (pc₂ + 2) pc' →
      ChainCode low slot (.ifOnly cond yes span ty :: rest) pc pc'
  | foreach {low slot name type source body sym span ty rest iterator element top exit pc pc₁ pc₂
      pc'} : low ≤ iterator → iterator < site.routine.iterators → site.Slot sym element →
      ExprCode (iterator + 1) source pc pc₁ → site.Has pc₁ (.acquire iterator) →
      site.Has (pc₁ + 1) (.mark top) → site.Leads top (pc₁ + 1) →
      site.Has (pc₁ + 2) (.advance iterator exit) → site.Has (pc₁ + 3) (.storeLocal element) →
      BlockCode (iterator + 1) body (pc₁ + 4) pc₂ → site.Has pc₂ (.storeLocal slot) →
      site.Has (pc₂ + 1) (.branch top) →
      site.Has (pc₂ + 2) (.mark exit) → site.Leads exit (pc₂ + 2) →
      site.Has (pc₂ + 3) (.release iterator) →
      ChainCode (iterator + 1) slot rest (pc₂ + 4) pc' →
      ChainCode low slot (.foreach name type source body sym span ty :: rest) pc pc'
  | plain {low slot body rest pc pc₁ pc'} : ExprCode low body pc pc₁ →
      site.Has pc₁ (.storeLocal slot) → ChainCode low slot rest (pc₁ + 1) pc' →
      ChainCode low slot (body :: rest) pc pc'

inductive BlockCode : Nat → Block .typed → Nat → Nat → Prop
  | mk {low stmts span ty pc pc'} : StmtsCode low stmts pc pc' →
      BlockCode low ⟨stmts, span, ty⟩ pc pc'

inductive StmtsCode : Nat → List (Stmt .typed) → Nat → Nat → Prop
  | nil {low pc} : StmtsCode low [] pc pc
  | letIn {low name type first chained span sym rest slot pc pc₁ pc₂ pc'} : site.Slot sym slot →
      ExprCode low first pc pc₁ → site.Has pc₁ (.storeLocal slot) →
      ChainCode low slot chained (pc₁ + 1) pc₂ → StmtsCode low rest pc₂ pc' →
      StmtsCode low (.letIn name type first chained span sym :: rest) pc pc'
  | func {low name params returns body span sym rest pc pc'} : StmtsCode low rest pc pc' →
      StmtsCode low (.func name params returns body span sym :: rest) pc pc'
  | record {low name fields span sym rest pc pc'} : StmtsCode low rest pc pc' →
      StmtsCode low (.record name fields span sym :: rest) pc pc'
  | last {low value pc pc'} : ExprCode low value pc pc' → StmtsCode low [.expr value] pc pc'
  | drop {low value rest pc pc₁ pc'} : rest ≠ [] → ExprCode low value pc pc₁ →
      site.Has pc₁ .pop → StmtsCode low rest (pc₁ + 1) pc' →
      StmtsCode low (.expr value :: rest) pc pc'

end

end

end Site

end LetChain
