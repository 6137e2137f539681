import LetChain.Proofs.Typing.Declarations

/-! Typing rules for function bodies. They speak of what a body may refer to when it runs: its
parameters, the locals that have a value by then, and the functions and records of the module. -/

namespace LetChain

/-- What the functions of a module share: its symbols and the functions themselves. -/
structure Globals where
  symbol : SymbolId → Symbol
  functions : List FunctionDef

def Resolved.globals (resolved : Resolved) : Globals :=
  ⟨fun id => (resolved.symbols.get id).forgetScope, resolved.module.functions⟩

namespace Globals

def types (globals : Globals) (ids : List SymbolId) : List Ty :=
  ids.map fun id => (globals.symbol id).ty

theorem length_of_types {globals : Globals} {args : List (Expr .typed)} {ids : List SymbolId}
    (types : args.map Expr.ty = globals.types ids) : args.length = ids.length := by
  simpa [Globals.types] using congrArg List.length types

/-- A function takes values of the types of its parameters to a value of its type. -/
def IsFunction (globals : Globals) (sym : SymbolId) (params : List SymbolId) (returns : Ty) :
    Prop :=
  (globals.symbol sym).kind = .function params returns 0

def IsRecord (globals : Globals) (sym : SymbolId) (fields : List SymbolId) : Prop :=
  (globals.symbol sym).kind = .record fields

end Globals

namespace Typing

variable (globals : Globals) (owner : SymbolId)

/-- A name that the body of `owner` may read: a parameter, or a local that is already `set`. -/
inductive Readable (set : List SymbolId) (sym : SymbolId) : Prop
  | param {params : List SymbolId} {returns : Ty} {index : Nat} :
      globals.IsFunction owner params returns → params[index]? = some sym →
      (globals.symbol sym).kind = .param index → Readable set sym
  | localVar : (globals.symbol sym).kind = .localVar → sym ∈ set → Readable set sym

mutual

inductive HasType : List SymbolId → Expr .typed → Prop
  | number {set value span} : HasType set (.number value span .number)
  | string {set value span} : HasType set (.string value span .string)
  | bool {set value span} : HasType set (.bool value span .boolean)
  | named {set name sym span} : Readable globals owner set sym →
      HasType set (.named name sym span (globals.symbol sym).ty)
  | binary {set op lhs rhs span ty} : HasType set lhs → HasType set rhs →
      Resolve.resultType? op lhs.ty rhs.ty = some ty → HasType set (.binary op lhs rhs span ty)
  | range {set first limit span} : HasType set first → first.ty = .number →
      HasType set limit → limit.ty = .number →
      HasType set (.range first limit none span (.seqOfElement .number))
  | rangeBy {set first limit step span} : HasType set first → first.ty = .number →
      HasType set limit → limit.ty = .number → HasType set step → step.ty = .number →
      HasType set (.range first limit (some step) span (.seqOfElement .number))
  | call {set name args sym span params returns} : globals.IsFunction sym params returns →
      (∃ function ∈ globals.functions, function.sym = sym) → HaveTypes set args →
      args.map Expr.ty = globals.types params → HasType set (.call name args sym span returns)
  | construct {set name args sym span fields} : globals.IsRecord sym fields →
      HaveTypes set args → args.map Expr.ty = globals.types fields →
      HasType set (.construct name args sym span (.record sym (globals.symbol sym).name))
  | member {set base field sym span record name fields index} : HasType set base →
      base.ty = .record record name → globals.IsRecord record fields →
      fields[index]? = some sym → (globals.symbol sym).kind = .field record index →
      HasType set (.member base field sym span (globals.symbol sym).ty)
  | ifElse {set cond yes no span ty} : HasType set cond → cond.ty = .boolean →
      BlockHasType set yes ty → BlockHasType set no ty →
      HasType set (.ifElse cond yes no span ty)
  | block {set body ty} : BlockHasType set body ty → HasType set (.block body ty)

inductive HaveTypes : List SymbolId → List (Expr .typed) → Prop
  | nil {set} : HaveTypes set []
  | cons {set first rest} : HasType set first → HaveTypes set rest →
      HaveTypes set (first :: rest)

inductive ChainHasType : List SymbolId → Ty → List (Expr .typed) → Prop
  | nil {set ty} : ChainHasType set ty []
  | ifOnly {set ty cond yes span rest} : HasType set cond → cond.ty = .boolean →
      BlockHasType set yes ty → ChainHasType set ty rest →
      ChainHasType set ty (.ifOnly cond yes span ty :: rest)
  | foreach {set ty element elementType source body sym span rest} : HasType set source →
      source.ty.element? = some (globals.symbol sym).ty → (globals.symbol sym).kind = .localVar →
      BlockHasType (sym :: set) body ty → ChainHasType set ty rest →
      ChainHasType set ty (.foreach element elementType source body sym span ty :: rest)
  | plain {set ty body rest} : HasType set body → body.ty = ty → ChainHasType set ty rest →
      ChainHasType set ty (body :: rest)

inductive BlockHasType : List SymbolId → Block .typed → Ty → Prop
  | mk {set stmts span ty} : StmtsTyped set stmts → Resolve.lastType? stmts = some ty →
      BlockHasType set ⟨stmts, span, some ty⟩ ty

inductive StmtsTyped : List SymbolId → List (Stmt .typed) → Prop
  | nil {set} : StmtsTyped set []
  | letIn {set name type first chained span sym rest} : HasType set first →
      first.ty = (globals.symbol sym).ty → (globals.symbol sym).kind = .localVar →
      ChainHasType (sym :: set) (globals.symbol sym).ty chained →
      StmtsTyped (sym :: set) rest →
      StmtsTyped set (.letIn name type first chained span sym :: rest)
  | func {set name params returns body span sym rest} : StmtsTyped set rest →
      StmtsTyped set (.func name params returns body span sym :: rest)
  | record {set name fields span sym rest} : StmtsTyped set rest →
      StmtsTyped set (.record name fields span sym :: rest)
  | expr {set value rest} : HasType set value → StmtsTyped set rest →
      StmtsTyped set (.expr value :: rest)

end

variable {globals : Globals} {owner : SymbolId}

theorem HasType.isSelfAssigning {set : List SymbolId} {e : Expr .typed}
    (rule : HasType globals owner set e) : e.isSelfAssigning = false := by
  cases rule <;> rfl

variable (globals : Globals)

def FunctionTyped (function : FunctionDef) : Prop :=
  ∃ params returns, globals.IsFunction function.sym params returns ∧
    params.length = function.params ∧
    BlockHasType globals function.sym [] function.body returns

def DeclarationTyped : Declaration → Prop
  | .localVar _ => True
  | .function function => FunctionTyped globals function
  | .record sym name => (globals.symbol sym).name = name

end Typing

end LetChain
