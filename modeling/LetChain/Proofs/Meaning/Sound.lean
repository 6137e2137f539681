import LetChain.Proofs.Meaning.Evaluate

/-! Types say which values there are: a typed body evaluates to a value of its type, or fails with
one of the errors that no type rules out. -/

namespace LetChain.Meaning

/-! ### Values of types -/

mutual

/-- Boxed values inhabit no type. -/
inductive Inhabits (globals : Globals) : Value → Ty → Prop
  | number {value : Float} : Inhabits globals (.number value) .number
  | bool {value : Bool} : Inhabits globals (.bool value) .boolean
  | text {value : String} : Inhabits globals (.text value) .string
  | record {identity : Identity} {sym : SymbolId} {fields : List SymbolId} {values : List Value} :
      globals.IsRecord sym fields → AllInhabit globals values (globals.types fields) →
      Inhabits globals
        (.record identity (globals.symbol sym).name (globals.names fields) values)
        (.record sym (globals.symbol sym).name)
  | seq {items : List Value} {ty : Ty} : (∀ item ∈ items, Inhabits globals item ty) →
      Inhabits globals (.seq items) (.seqOfElement ty)

inductive AllInhabit (globals : Globals) : List Value → List Ty → Prop
  | nil : AllInhabit globals [] []
  | cons {value : Value} {ty : Ty} {values : List Value} {types : List Ty} :
      Inhabits globals value ty → AllInhabit globals values types →
      AllInhabit globals (value :: values) (ty :: types)

end

section Values

variable {globals : Globals}

theorem AllInhabit.get {values : List Value} {types : List Ty} {index : Nat} {ty : Ty}
    (inhabited : AllInhabit globals values types) (found : types[index]? = some ty) :
    ∃ value, values[index]? = some value ∧ Inhabits globals value ty := by
  induction index generalizing values types with
  | zero =>
    cases inhabited with
    | nil => cases found
    | cons first _ =>
      cases found
      exact ⟨_, rfl, first⟩
  | succ index ih =>
    cases inhabited with
    | nil => cases found
    | cons _ rest => exact ih rest found

theorem textOf?_of_inhabits {ty : Ty} {value : Value} (inhabited : Inhabits globals value ty)
    (textual : ty = .number ∨ ty = .string) : ∃ text, textOf? ty value = some text := by
  rcases textual with rfl | rfl
  · exact ⟨_, rfl⟩
  · cases inhabited
    exact ⟨_, rfl⟩

theorem equal?_of_inhabits {ty : Ty} {lhs rhs : Value} (left : Inhabits globals lhs ty)
    (right : Inhabits globals rhs ty) : ∃ same, equal? ty lhs rhs = some same := by
  cases left with
  | number => cases right; exact ⟨_, rfl⟩
  | bool => cases right; exact ⟨_, rfl⟩
  | text => cases right; exact ⟨_, rfl⟩
  | record _ _ => cases right; exact ⟨_, rfl⟩
  | seq _ => exact ⟨_, rfl⟩

theorem operate?_of_inhabits {op : Operator} {lhsTy rhsTy ty : Ty} {lhs rhs : Value}
    (typed : Resolve.resultType? op lhsTy rhsTy = some ty) (left : Inhabits globals lhs lhsTy)
    (right : Inhabits globals rhs rhsTy) :
    ∃ value, operate? op lhsTy rhsTy lhs rhs = some value ∧ Inhabits globals value ty := by
  cases op with
  | add | sub | mul | div | rem =>
    obtain ⟨⟨rfl, rfl⟩, rfl⟩ := (Option.ite_none_right_eq_some.mp typed).imp_right Option.some.inj
    cases left
    cases right
    exact ⟨_, rfl, .number⟩
  | greater | less | and | or =>
    obtain ⟨⟨rfl, rfl⟩, rfl⟩ := (Option.ite_none_right_eq_some.mp typed).imp_right Option.some.inj
    cases left
    cases right
    exact ⟨_, rfl, .bool⟩
  | eq | ne =>
    obtain ⟨rfl, rfl⟩ := (Option.ite_none_right_eq_some.mp typed).imp_right Option.some.inj
    obtain ⟨same, defined⟩ := equal?_of_inhabits left right
    simp only [operate?, defined, Option.map_some]
    exact ⟨_, rfl, .bool⟩
  | concat =>
    obtain ⟨⟨leftTextual, rightTextual⟩, rfl⟩ :=
      (Option.ite_none_right_eq_some.mp typed).imp_right Option.some.inj
    obtain ⟨leftText, leftDefined⟩ := textOf?_of_inhabits left leftTextual
    obtain ⟨rightText, rightDefined⟩ := textOf?_of_inhabits right rightTextual
    simp only [operate?, leftDefined, rightDefined]
    exact ⟨_, rfl, .text⟩

theorem elements_inhabit (first limit step : Float) (ascending : Bool) :
    ∀ (count index : Nat) (done : Array Value),
      (∀ item ∈ done.toList, Inhabits globals item .number) →
      ∀ item ∈ Range.elements first limit step ascending count index done,
        Inhabits globals item .number
  | 0, _, _, numbers => numbers
  | count + 1, index, done, numbers => by
    have more : ∀ value, ∀ item ∈ (done.push (.number value)).toList,
        Inhabits globals item .number := by
      intro value item member
      rw [Array.toList_push, List.mem_append, List.mem_singleton] at member
      rcases member with member | rfl
      · exact numbers item member
      · exact .number
    have rest value :=
      elements_inhabit first limit step ascending count (index + 1) _ (more value)
    rw [Range.elements]
    split <;> split <;> first | exact rest _ | exact numbers

end Values

/-! ### Safe evaluation -/

inductive Failure.Reportable : Failure → Prop
  | callDepthExceeded {limit : Nat} : Reportable (.error (.callDepthExceeded limit))
  | rangeTooLarge {limit : Nat} : Reportable (.error (.rangeTooLarge limit))
  | invalidStep {step : Float} : Reportable (.error (.invalidStep step))

def Ends {α : Type} (result : Except Failure α) (good : α → Prop) : Prop :=
  match result with
  | .ok a => good a
  | .error failure => failure.Reportable

theorem Ends.bind {α β : Type} {result : Except Failure α} {next : α → Except Failure β}
    {good : α → Prop} {good' : β → Prop} (first : Ends result good)
    (rest : ∀ a, good a → Ends (next a) good') : Ends (result >>= next) good' := by
  cases result with
  | ok a => exact rest a first
  | error _ => exact first

theorem Ends.imp {α : Type} {result : Except Failure α} {good good' : α → Prop}
    (ends : Ends result good) (imp : ∀ a, good a → good' a) : Ends result good' := by
  cases result with
  | ok a => exact imp a ends
  | error _ => exact ends

/-- Every local that has a value has one of its type, and those of `set` have one. -/
structure StoreTyped (globals : Globals) (set : List SymbolId) (store : Store) : Prop where
  inhabits : ∀ {sym value}, store.locals sym = some value →
    Inhabits globals value (globals.symbol sym).ty
  assigned : ∀ {sym}, sym ∈ set → ∃ value, store.locals sym = some value

/-- From a store in which `set` is set, an evaluation gives a good value and a store in which `set'`
is, or it may fail. -/
def Safe {α : Type} (globals : Globals) (set : List SymbolId) (act : Eval α) (set' : List SymbolId)
    (good : α → Prop) : Prop :=
  ∀ store, StoreTyped globals set store →
    Ends (act store) fun (a, store') => good a ∧ StoreTyped globals set' store'

namespace Safe

variable {globals : Globals} {set set' set'' : List SymbolId} {α β : Type}

theorem pure {a : α} {good : α → Prop} (isGood : good a) :
    Safe globals set (pure a) set good :=
  fun _ typed => ⟨isGood, typed⟩

theorem bind {act : Eval α} {next : α → Eval β} {good : α → Prop} {good' : β → Prop}
    (first : Safe globals set act set' good)
    (rest : ∀ a, good a → Safe globals set' (next a) set'' good') :
    Safe globals set (act >>= next) set'' good' :=
  fun store typed => (first store typed).bind fun (a, store') ⟨isGood, typed'⟩ =>
    rest a isGood store' typed'

theorem forget {act : Eval α} {good : α → Prop} {sym : SymbolId}
    (safe : Safe globals set act (sym :: set') good) : Safe globals set act set' good := by
  intro store typed
  refine Ends.imp (safe store typed) fun (_, store') ⟨isGood, typed'⟩ => ?_
  exact ⟨isGood, typed'.inhabits, fun member => typed'.assigned (.tail _ member)⟩

theorem orStuck {option : Option α} {good : α → Prop}
    (defined : ∃ a, option = some a ∧ good a) : Safe globals set (orStuck option) set good := by
  obtain ⟨a, rfl, isGood⟩ := defined
  exact pure isGood

theorem assign {sym : SymbolId} {value : Value}
    (inhabited : Inhabits globals value (globals.symbol sym).ty) :
    Safe globals set (assign sym value) (sym :: set) fun _ => True := by
  intro store typed
  refine ⟨trivial, ?_, ?_⟩
  · intro other found stored
    by_cases same : other = sym
    · subst same
      simp only [if_pos] at stored
      cases stored
      exact inhabited
    · simp only [if_neg same] at stored
      exact typed.inhabits stored
  · intro other member
    by_cases same : other = sym
    · exact ⟨value, if_pos same⟩
    · obtain ⟨found, stored⟩ := typed.assigned ((List.mem_cons.mp member).resolve_left same)
      exact ⟨found, (if_neg same).trans stored⟩

theorem branch {cond : Value} {yes no : Eval α} {good : α → Prop}
    (inhabited : Inhabits globals cond .boolean) (yesSafe : Safe globals set yes set' good)
    (noSafe : Safe globals set no set' good) : Safe globals set (branch cond yes no) set' good := by
  cases inhabited with
  | @bool value =>
    cases value
    · exact noSafe
    · exact yesSafe

theorem forM {items : List Value} {act : Value → Eval Unit}
    (each : ∀ item ∈ items, Safe globals set (act item) set fun _ => True) :
    Safe globals set (items.forM act) set fun _ => True := by
  induction items with
  | nil => exact pure trivial
  | cons item items ih =>
    refine (each item (.head _)).bind fun _ _ => ih fun other member => ?_
    exact each other (.tail _ member)

theorem rangeOf {limits : Limits} {first limit step : Value}
    (firstNumber : Inhabits globals first .number) (limitNumber : Inhabits globals limit .number)
    (stepNumber : Inhabits globals step .number) :
    Safe globals set (rangeOf limits first limit step) set
      (Inhabits globals · (.seqOfElement .number)) := by
  cases firstNumber
  cases limitNumber
  cases stepNumber
  intro store typed
  simp only [Meaning.rangeOf, Range.generate]
  split
  · exact .invalidStep
  · split
    · exact .rangeTooLarge
    · exact ⟨.seq (elements_inhabit _ _ _ _ _ _ _ (by simp)), typed⟩

end Safe

/-! ### Typed trees -/

structure ContextTyped (context : Context) (owner : SymbolId) : Prop where
  args : ∀ {params returns}, context.globals.IsFunction owner params returns →
    AllInhabit context.globals context.args (context.globals.types params)
  call : ∀ {sym params returns args made}, context.globals.IsFunction sym params returns →
    (∃ function ∈ context.globals.functions, function.sym = sym) →
    AllInhabit context.globals args (context.globals.types params) →
    Ends (context.call sym args made) fun (value, _) => Inhabits context.globals value returns

theorem Safe.invoke {context : Context} {set : List SymbolId} {sym : SymbolId} {returns : Ty}
    {args : List Value}
    (ends : ∀ made, Ends (context.call sym args made)
      fun (value, _) => Inhabits context.globals value returns) :
    Safe context.globals set (invoke context sym args) set
      (Inhabits context.globals · returns) := by
  intro store typed
  refine (ends store.made).bind fun (value, made) inhabited => ?_
  exact ⟨inhabited, typed.inhabits, typed.assigned⟩

theorem Safe.construct {globals : Globals} {set fields : List SymbolId} {sym : SymbolId}
    {values : List Value} (isRecord : globals.IsRecord sym fields)
    (inhabited : AllInhabit globals values (globals.types fields)) :
    Safe globals set (construct globals sym values) set
      (Inhabits globals · (.record sym (globals.symbol sym).name)) := by
  intro store typed
  have same : (globals.symbol sym).fields = fields := by rw [Symbol.fields, isRecord]
  subst same
  exact ⟨.record isRecord inhabited, typed.inhabits, typed.assigned⟩

theorem Safe.read {context : Context} {owner sym : SymbolId} {set : List SymbolId}
    (typed : ContextTyped context owner) (readable : Typing.Readable context.globals owner set sym) :
    Safe context.globals set (read context sym) set
      (Inhabits context.globals · (context.globals.symbol sym).ty) := by
  cases readable with
  | @param params returns index isFunction found kind =>
    simp only [Meaning.read, kind]
    refine Safe.orStuck ((typed.args isFunction).get ?_)
    simp [Globals.types, found]
  | localVar kind member =>
    simp only [Meaning.read, kind]
    intro store stored
    obtain ⟨value, present⟩ := stored.assigned member
    have defined : ∃ value, store.locals sym = some value ∧
        Inhabits context.globals value (context.globals.symbol sym).ty :=
      ⟨value, present, stored.inhabits present⟩
    exact Safe.orStuck defined store stored

theorem field?_of_inhabits {globals : Globals} {record sym : SymbolId} {name : String}
    {fields : List SymbolId} {index : Nat} {value : Value}
    (inhabited : Inhabits globals value (.record record name))
    (isRecord : globals.IsRecord record fields) (found : fields[index]? = some sym)
    (kind : (globals.symbol sym).kind = .field record index) :
    ∃ field, field? globals sym value = some field ∧
      Inhabits globals field (globals.symbol sym).ty := by
  cases inhabited with
  | record isRecord' values =>
    cases isRecord.symm.trans isRecord'
    simp only [field?, kind]
    exact values.get (by simp [Globals.types, found])

theorem items?_of_inhabits {globals : Globals} {ty element : Ty} {value : Value}
    (inhabited : Inhabits globals value ty) (isElement : ty.element? = some element) :
    ∃ items, items? value = some items ∧ ∀ item ∈ items, Inhabits globals item element := by
  cases inhabited with
  | seq items =>
    cases isElement
    exact ⟨_, rfl, items⟩
  | _ => cases isElement

theorem lastType?_cons {stmt : Stmt .typed} {rest : List (Stmt .typed)} {ty : Ty}
    (last : Resolve.lastType? (stmt :: rest) = some ty) :
    (rest = [] ∧ ∃ value, stmt = .expr value ∧ value.ty = ty) ∨
      (rest ≠ [] ∧ Resolve.lastType? rest = some ty) := by
  cases rest with
  | nil =>
    refine .inl ⟨rfl, ?_⟩
    cases stmt with
    | expr value => exact ⟨value, rfl, Option.some.inj last⟩
    | _ => cases last
  | cons next rest =>
    refine .inr ⟨List.cons_ne_nil _ _, ?_⟩
    rwa [Resolve.lastType?, List.getLast?_cons_cons] at last

section Trees

open Typing

variable {context : Context} {owner : SymbolId}

mutual

theorem evalExpr_safe (typed : ContextTyped context owner) :
    ∀ {set : List SymbolId} (e : Expr .typed),
    HasType context.globals owner set e →
    Safe context.globals set (evalExpr context e) set (Inhabits context.globals · e.ty)
  | _, .number .., rule => by
    cases rule
    exact Safe.pure .number
  | _, .string .., rule => by
    cases rule
    exact Safe.pure .text
  | _, .bool .., rule => by
    cases rule
    exact Safe.pure .bool
  | _, .named .., rule => by
    cases rule with
    | named readable => exact Safe.read typed readable
  | _, .binary _ lhs rhs _ _, rule => by
    cases rule with
    | binary lhsRule rhsRule result =>
      rw [evalExpr]
      refine (evalExpr_safe typed lhs lhsRule).bind fun left leftIn => ?_
      refine (evalExpr_safe typed rhs rhsRule).bind fun right rightIn => ?_
      exact Safe.orStuck (operate?_of_inhabits result leftIn rightIn)
  | _, .range first limit none _ _, rule => by
    cases rule with
    | range firstRule firstNumber limitRule limitNumber =>
      rw [evalExpr]
      refine (evalExpr_safe typed first firstRule).bind fun _ firstIn => ?_
      refine (evalExpr_safe typed limit limitRule).bind fun _ limitIn => ?_
      exact Safe.rangeOf (firstNumber ▸ firstIn) (limitNumber ▸ limitIn) .number
  | _, .range first limit (some step) _ _, rule => by
    cases rule with
    | rangeBy firstRule firstNumber limitRule limitNumber stepRule stepNumber =>
      rw [evalExpr]
      refine (evalExpr_safe typed first firstRule).bind fun _ firstIn => ?_
      refine (evalExpr_safe typed limit limitRule).bind fun _ limitIn => ?_
      refine (evalExpr_safe typed step stepRule).bind fun _ stepIn => ?_
      exact Safe.rangeOf (firstNumber ▸ firstIn) (limitNumber ▸ limitIn) (stepNumber ▸ stepIn)
  | _, .call _ args _ _ _, rule => by
    cases rule with
    | call isFunction defined argsRule types =>
      rw [evalExpr]
      refine (evalExprs_safe typed args argsRule).bind fun values valuesIn => ?_
      exact Safe.invoke fun _ => typed.call isFunction defined (types ▸ valuesIn)
  | _, .construct _ args _ _ _, rule => by
    cases rule with
    | construct isRecord argsRule types =>
      rw [evalExpr]
      refine (evalExprs_safe typed args argsRule).bind fun values valuesIn => ?_
      exact Safe.construct isRecord (types ▸ valuesIn)
  | _, .member base _ _ _ _, rule => by
    cases rule with
    | member baseRule isRecordType isRecord found kind =>
      rw [evalExpr]
      refine (evalExpr_safe typed base baseRule).bind fun _ baseIn => ?_
      exact Safe.orStuck (field?_of_inhabits (isRecordType ▸ baseIn) isRecord found kind)
  | _, .ifElse cond yes no _ _, rule => by
    cases rule with
    | ifElse condRule isBoolean yesRule noRule =>
      rw [evalExpr]
      refine (evalExpr_safe typed cond condRule).bind fun _ condIn => ?_
      exact Safe.branch (isBoolean ▸ condIn) (evalBlock_safe typed yes yesRule)
        (evalBlock_safe typed no noRule)
  | _, .ifOnly .., rule => nomatch rule
  | _, .foreach .., rule => nomatch rule
  | _, .block body _, rule => by
    cases rule with
    | block bodyRule =>
      rw [evalExpr]
      exact evalBlock_safe typed body bodyRule

theorem evalExprs_safe (typed : ContextTyped context owner) :
    ∀ {set : List SymbolId} (es : List (Expr .typed)),
    HaveTypes context.globals owner set es →
    Safe context.globals set (evalExprs context es) set
      (AllInhabit context.globals · (es.map Expr.ty))
  | _, [], _ => Safe.pure .nil
  | _, first :: rest, rule => by
    cases rule with
    | cons firstRule restRule =>
      rw [evalExprs]
      refine (evalExpr_safe typed first firstRule).bind fun _ firstIn => ?_
      refine (evalExprs_safe typed rest restRule).bind fun _ restIn => ?_
      exact Safe.pure (.cons firstIn restIn)

theorem evalChain_safe (typed : ContextTyped context owner) :
    ∀ {set : List SymbolId} {target : SymbolId} (bodies : List (Expr .typed)),
    ChainHasType context.globals owner (target :: set) (context.globals.symbol target).ty bodies →
    Safe context.globals (target :: set) (evalChain context target bodies) (target :: set)
      fun _ => True
  | _, _, [], _ => Safe.pure trivial
  | set, target, body :: rest, rule => by
    have assigned {value : Value}
        (inhabited : Inhabits context.globals value (context.globals.symbol target).ty) :
        Safe context.globals (target :: set) (assign target value) (target :: set)
          fun _ => True :=
      (Safe.assign inhabited).forget
    have plain (bodyRule : HasType context.globals owner (target :: set) body)
        (isType : body.ty = (context.globals.symbol target).ty)
        (restRule : ChainHasType context.globals owner (target :: set)
          (context.globals.symbol target).ty rest) :
        Safe context.globals (target :: set) (evalChain context target (body :: rest))
          (target :: set) fun _ => True := by
      rw [evalChain_cons _ _ bodyRule.isSelfAssigning]
      refine (evalExpr_safe typed body bodyRule).bind fun value valueIn => ?_
      refine (assigned (isType ▸ valueIn)).bind fun _ _ => ?_
      exact evalChain_safe typed rest restRule
    cases body with
    | ifOnly cond yes span ty =>
      cases rule with
      | plain bodyRule _ _ => nomatch bodyRule
      | ifOnly condRule isBoolean yesRule restRule =>
        rw [evalChain]
        refine (evalExpr_safe typed cond condRule).bind fun _ condIn => ?_
        have yesSafe :=
          (evalBlock_safe typed yes yesRule).bind fun _ valueIn => assigned valueIn
        refine (Safe.branch (isBoolean ▸ condIn) yesSafe (Safe.pure trivial)).bind
          fun _ _ => ?_
        exact evalChain_safe typed rest restRule
    | foreach element elementType source body sym span ty =>
      cases rule with
      | plain bodyRule _ _ => nomatch bodyRule
      | foreach sourceRule isElement kind bodyRule restRule =>
        rw [evalChain]
        refine (evalExpr_safe typed source sourceRule).bind fun _ sourceIn => ?_
        refine (Safe.orStuck (items?_of_inhabits sourceIn isElement)).bind
          fun items itemsIn => ?_
        have each : ∀ item ∈ items, Safe context.globals (target :: set) _ (target :: set) _ :=
          fun item member => (Safe.assign (itemsIn item member)).bind fun _ _ =>
            (evalBlock_safe typed body bodyRule).bind fun _ valueIn =>
              (Safe.assign valueIn).forget.forget
        exact (Safe.forM each).bind fun _ _ => evalChain_safe typed rest restRule
    | _ =>
      cases rule with
      | plain bodyRule isType restRule => exact plain bodyRule isType restRule

theorem evalBlock_safe (typed : ContextTyped context owner) :
    ∀ {set : List SymbolId} {ty : Ty} (body : Block .typed),
    BlockHasType context.globals owner set body ty →
    Safe context.globals set (evalBlock context body) set (Inhabits context.globals · ty)
  | _, _, ⟨stmts, _, _⟩, rule => by
    cases rule with
    | mk stmtsRule last =>
      rw [evalBlock]
      exact evalStmts_safe typed stmts stmtsRule last

theorem evalStmts_safe (typed : ContextTyped context owner) :
    ∀ {set : List SymbolId} {ty : Ty} (stmts : List (Stmt .typed)),
    StmtsTyped context.globals owner set stmts → Resolve.lastType? stmts = some ty →
    Safe context.globals set (evalStmts context stmts) set (Inhabits context.globals · ty)
  | _, _, [], _, last => nomatch last
  | _, _, .letIn _ _ first chained _ sym :: rest, rule, last => by
    cases rule with
    | letIn firstRule isType kind chainRule restRule =>
      obtain ⟨_, _, wrong, _⟩ | ⟨_, restLast⟩ := lastType?_cons last
      · cases wrong
      rw [evalStmts]
      refine (evalExpr_safe typed first firstRule).bind fun value valueIn => ?_
      refine (Safe.assign (isType ▸ valueIn)).bind fun _ _ => ?_
      refine (evalChain_safe typed chained chainRule).bind fun _ _ => ?_
      exact (evalStmts_safe typed rest restRule restLast).forget
  | _, _, .func .. :: rest, rule, last => by
    cases rule with
    | func restRule =>
      obtain ⟨_, _, wrong, _⟩ | ⟨_, restLast⟩ := lastType?_cons last
      · cases wrong
      rw [evalStmts]
      exact evalStmts_safe typed rest restRule restLast
  | _, _, .record .. :: rest, rule, last => by
    cases rule with
    | record restRule =>
      obtain ⟨_, _, wrong, _⟩ | ⟨_, restLast⟩ := lastType?_cons last
      · cases wrong
      rw [evalStmts]
      exact evalStmts_safe typed rest restRule restLast
  | _, _, .expr value :: rest, rule, last => by
    cases rule with
    | expr valueRule restRule =>
      rw [evalStmts]
      refine (evalExpr_safe typed value valueRule).bind fun _ valueIn => ?_
      obtain ⟨rfl, _, same, isType⟩ | ⟨more, restLast⟩ := lastType?_cons last
      · cases same
        exact Safe.pure (isType ▸ valueIn)
      · rw [if_neg (by simpa using more)]
        exact evalStmts_safe typed rest restRule restLast

end

end Trees

theorem callFunction_ends {globals : Globals} {limits : Limits}
    (typed : ∀ function ∈ globals.functions, Typing.FunctionTyped globals function) :
    ∀ (levels : Nat) {sym : SymbolId} {params : List SymbolId} {returns : Ty} {args : List Value}
      {made : Nat}, globals.IsFunction sym params returns →
      (∃ function ∈ globals.functions, function.sym = sym) →
      AllInhabit globals args (globals.types params) →
      Ends (callFunction globals limits levels sym args made)
        fun (value, _) => Inhabits globals value returns
  | 0, _, _, _, _, _, _, _, _ => .callDepthExceeded
  | levels + 1, sym, params, returns, args, made, isFunction, defined, argsIn => by
    rw [callFunction]
    cases found : globals.functions.find? (·.sym = sym) with
    | none =>
      obtain ⟨function, member, same⟩ := defined
      exact absurd same (by simpa using List.find?_eq_none.mp found function member)
    | some function =>
      obtain rfl : function.sym = sym := by simpa using List.find?_some found
      obtain ⟨params', returns', isFunction', -, bodyRule⟩ :=
        typed function (List.mem_of_find?_eq_some found)
      cases isFunction.symm.trans isFunction'
      have contextTyped :
          ContextTyped ⟨globals, limits, args, callFunction globals limits levels⟩
            function.sym := by
        refine ⟨fun isFunction' => ?_, callFunction_ends typed levels⟩
        cases isFunction.symm.trans isFunction'
        exact argsIn
      have storeTyped : StoreTyped globals [] ⟨fun _ => none, made⟩ := ⟨nofun, nofun⟩
      exact (evalBlock_safe contextTyped function.body bodyRule _ storeTyped).bind
        fun _ ⟨inhabited, _⟩ => inhabited

end LetChain.Meaning
