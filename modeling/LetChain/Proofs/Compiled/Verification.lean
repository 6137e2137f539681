import LetChain.Proofs.Code.Verified
import LetChain.Proofs.Compiled.Behaviour

/-! Generated code is verified: the code of every typed tree is a segment that leaves one value more
than it found. -/

namespace LetChain

open Typing Meaning Routine.Segment

structure Site.Hosts (site : Site) (program : Program) (globals : Globals) (owner : SymbolId) :
    Prop where
  linked : Linked program site.layout site.symbols globals
  params : ∃ params returns, globals.IsFunction owner params returns ∧
    params.length = site.routine.params
  locals : site.routine.locals = site.locals.length

namespace Site.Hosts

variable {site : Site} {program : Program} {globals : Globals} {owner : SymbolId}
  (hosts : site.Hosts program globals owner)

include hosts

theorem slot {sym : SymbolId} {slot : Nat} (has : site.Slot sym slot) :
    slot < site.routine.locals := by
  rw [hosts.locals]
  exact (List.getElem?_eq_some_iff.mp has).1

theorem store {sym : SymbolId} {slot pc h : Nat} (hasSlot : site.Slot sym slot)
    (has : site.Has pc (.storeLocal slot)) :
    site.routine.Segment program [] pc (pc + 1) (h + 1) h :=
  straight has nofun (hosts.slot hasSlot) nofun (Nat.le_add_left _ _) rfl rfl

theorem named {set : List SymbolId} {low : Nat} {name : Ident} {sym : SymbolId} {span : Span} {ty : Ty}
    {pc pc' h : Nat} (readable : Readable globals owner set sym)
    (code : site.ExprCode low (.named name sym span ty) pc pc') :
    site.routine.Segment program [] pc pc' h (h + 1) := by
  cases code with
  | localVar _ hasSlot has =>
    exact straight has nofun (hosts.slot hasSlot) nofun (Nat.zero_le _) rfl rfl
  | @param _ _ _ _ _ index _ kind has =>
    refine straight has nofun ?_ nofun (Nat.zero_le _) rfl rfl
    have kind' : (globals.symbol sym).kind = .param index := by
      rw [hosts.linked.symbol, Symbol.forgetScope, kind]
      rfl
    cases readable with
    | localVar isLocal _ => cases isLocal.symm.trans kind'
    | param isFunction place isParam =>
      cases isParam.symm.trans kind'
      obtain ⟨params, returns, isFunction', count⟩ := hosts.params
      cases isFunction.symm.trans isFunction'
      change index < site.routine.params
      rw [← count]
      exact (List.getElem?_eq_some_iff.mp place).1

theorem call {sym : SymbolId} {params : List SymbolId} {returns : Ty} {args : List (Expr .typed)}
    {index pc h : Nat} (isFunction : globals.IsFunction sym params returns)
    (types : args.map Expr.ty = globals.types params)
    (found : site.layout.functionIds[sym]? = some index) (has : site.Has pc (.call index)) :
    site.routine.Segment program [] pc (pc + 1) (h + args.length) (h + 1) := by
  have arity := Globals.length_of_types types
  obtain ⟨function, listed, rfl⟩ := hosts.linked.functionId sym index found
  obtain ⟨routine, present, implements⟩ := hosts.linked.routine index function listed
  obtain ⟨params', returns', isFunction', count, -⟩ :=
    hosts.linked.typed function (List.mem_of_getElem? listed)
  cases isFunction.symm.trans isFunction'
  have pops : Instr.pops program (.call index) = args.length := by
    rw [Instr.pops_call present, arity, count, implements.params]
  refine straight has nofun (Array.getElem?_eq_some_iff.mp present).1 nofun ?_ rfl ?_
  · rw [pops]
    exact Nat.le_add_left _ _
  · rw [pops, Nat.add_sub_cancel]
    rfl

theorem construct {sym : SymbolId} {fields : List SymbolId} {args : List (Expr .typed)}
    {index pc h : Nat} (isRecord : globals.IsRecord sym fields)
    (types : args.map Expr.ty = globals.types fields)
    (found : site.layout.recordIds[sym]? = some index) (has : site.Has pc (.construct index)) :
    site.routine.Segment program [] pc (pc + 1) (h + args.length) (h + 1) := by
  have arity := Globals.length_of_types types
  have present := hosts.linked.record sym index found
  have pops : Instr.pops program (.construct index) = args.length := by
    rw [Instr.pops_construct present, arity, Symbol.fields, isRecord]
    exact List.length_range
  refine straight has nofun (Array.getElem?_eq_some_iff.mp present).1 nofun ?_ rfl ?_
  · rw [pops]
    exact Nat.le_add_left _ _
  · rw [pops, Nat.add_sub_cancel]
    rfl

theorem loadField {sym record : SymbolId} {fields : List SymbolId} {id index pc h : Nat}
    (isRecord : globals.IsRecord record fields) (place : fields[index]? = some sym)
    (found : site.layout.recordIds[record]? = some id) (has : site.Has pc (.loadField id index)) :
    site.routine.Segment program [] pc (pc + 1) (h + 1) (h + 1) := by
  refine straight has nofun ⟨_, hosts.linked.record record id found, ?_⟩ nofun
    (Nat.le_add_left _ _) rfl rfl
  rw [Symbol.fields, isRecord, Globals.names, List.length_map]
  exact (List.getElem?_eq_some_iff.mp place).1

end Site.Hosts

theorem Site.BoxCode.segment {site : Site} {program : Program} {op : Operator} {ty : Ty}
    {pc pc' h : Nat} (code : site.BoxCode op ty pc pc') :
    site.routine.Segment program [] pc pc' (h + 1) (h + 1) := by
  unfold Site.BoxCode at code
  split at code
  · obtain ⟨has, rfl⟩ := code
    exact straight has nofun trivial nofun (Nat.le_add_left _ _) rfl rfl
  · subst code
    exact nil

/-! ### Trees -/

section Trees

variable {site : Site} {program : Program} {globals : Globals} {owner : SymbolId}

mutual

theorem expr_segment (hosts : site.Hosts program globals owner) :
    ∀ {set : List SymbolId} {low pc pc' h : Nat} (e : Expr .typed), HasType globals owner set e →
      site.ExprCode low e pc pc' → site.routine.Segment program [] pc pc' h (h + 1)
  | _, _, _, _, _, .number .., _, .number has =>
    straight has nofun trivial nofun (Nat.zero_le _) rfl rfl
  | _, _, _, _, _, .string .., _, .string has =>
    straight has nofun trivial nofun (Nat.zero_le _) rfl rfl
  | _, _, _, _, _, .bool .., _, .bool has =>
    straight has nofun trivial nofun (Nat.zero_le _) rfl rfl
  | _, _, _, _, _, .named .., .named readable, code => hosts.named readable code
  | _, _, _, _, h, .binary op lhs rhs _ _, .binary lhsRule rhsRule _,
      .binary _ lhsCode lhsBox rhsCode rhsBox has =>
      (expr_segment hosts lhs lhsRule lhsCode).append <| lhsBox.segment.append <|
        (expr_segment hosts rhs rhsRule rhsCode).append <| rhsBox.segment.append <|
        straight has nofun trivial nofun (Nat.le_add_left _ _) rfl rfl
  | _, _, _, _, _, .range first limit none _ _, .range firstRule _ limitRule _,
      .range firstCode limitCode pushes has =>
      (expr_segment hosts first firstRule firstCode).append <|
        (expr_segment hosts limit limitRule limitCode).append <|
        (straight pushes nofun trivial nofun (Nat.zero_le _) rfl rfl).append <|
        straight has nofun trivial nofun (Nat.le_add_left _ _) rfl rfl
  | _, _, _, _, _, .range first limit (some step) _ _, .rangeBy firstRule _ limitRule _ stepRule _,
      .rangeBy firstCode limitCode stepCode has =>
      (expr_segment hosts first firstRule firstCode).append <|
        (expr_segment hosts limit limitRule limitCode).append <|
        (expr_segment hosts step stepRule stepCode).append <|
        straight has nofun trivial nofun (Nat.le_add_left _ _) rfl rfl
  | _, _, _, _, _, .call _ args _ _ _, .call isFunction _ argsRule types,
      .call argsCode found has =>
      (exprs_segment hosts args argsRule argsCode).append (hosts.call isFunction types found has)
  | _, _, _, _, _, .construct _ args _ _ _, .construct isRecord argsRule types,
      .construct argsCode found has =>
      (exprs_segment hosts args argsRule argsCode).append (hosts.construct isRecord types found has)
  | _, _, _, _, _, .member base _ sym _ _, rule, code => by
    cases rule with
    | member baseRule _ isRecord place kind =>
      cases code with
      | member baseCode kind' found has =>
        cases kind.symm.trans (hosts.linked.kind_field kind')
        exact (expr_segment hosts base baseRule baseCode).append
          (hosts.loadField isRecord place found has)
  | _, _, _, _, _, .ifElse cond yes no _ _, .ifElse condRule _ yesRule noRule,
      .ifElse condCode branches yesCode skips otherwiseMark otherwiseLeads noCode doneMark
        doneLeads =>
      ifElse (expr_segment hosts cond condRule condCode) branches
        (block_segment hosts yes yesRule yesCode) skips otherwiseMark otherwiseLeads
        (block_segment hosts no noRule noCode) doneMark doneLeads
  | _, _, _, _, _, .ifOnly .., rule, _ => nomatch rule
  | _, _, _, _, _, .foreach .., rule, _ => nomatch rule
  | _, _, _, _, _, .block body _, .block rule, .block code => block_segment hosts body rule code
termination_by structural _ _ _ _ _ e => e

theorem exprs_segment (hosts : site.Hosts program globals owner) :
    ∀ {set : List SymbolId} {low pc pc' h : Nat} (es : List (Expr .typed)),
      HaveTypes globals owner set es → site.ExprsCode low es pc pc' →
      site.routine.Segment program [] pc pc' h (h + es.length)
  | _, _, _, _, _, [], _, .nil => nil
  | _, _, _, _, h, first :: rest, .cons firstRule restRule, .cons firstCode restCode => by
    rw [List.length_cons, Nat.add_comm rest.length, ← Nat.add_assoc]
    exact (expr_segment hosts first firstRule firstCode).append
      (exprs_segment hosts rest restRule restCode)
termination_by structural _ _ _ _ _ es => es

theorem chain_segment (hosts : site.Hosts program globals owner) :
    ∀ {set : List SymbolId} {ty : Ty} {target : SymbolId} {slot low pc pc' h : Nat}
      (bodies : List (Expr .typed)), ChainHasType globals owner set ty bodies →
      site.Slot target slot → site.ChainCode low slot bodies pc pc' →
      site.routine.Segment program [] pc pc' h h
  | _, _, _, _, _, _, _, _, [], _, _, .nil => nil
  | set, ty, _, slot, low, pc, pc', h, body :: rest, rule, hasSlot, code => by
    have plain {pc₁ : Nat} (bodyRule : HasType globals owner set body)
        (restRule : ChainHasType globals owner set ty rest)
        (bodyCode : site.ExprCode low body pc pc₁) (stores : site.Has pc₁ (.storeLocal slot))
        (restCode : site.ChainCode low slot rest (pc₁ + 1) pc') :
        site.routine.Segment program [] pc pc' h h :=
      (expr_segment hosts body bodyRule bodyCode).append ((hosts.store hasSlot stores).append
        (chain_segment hosts rest restRule hasSlot restCode))
    cases body with
    | ifOnly cond yes span ty =>
      cases rule with
      | plain wrong _ _ => nomatch wrong
      | ifOnly condRule _ yesRule restRule =>
        cases code with
        | plain wrong _ _ => nomatch wrong
        | ifOnly condCode branches yesCode stores doneMark doneLeads restCode =>
          have assigned := (block_segment hosts yes yesRule yesCode).append
            (hosts.store (h := h) hasSlot stores)
          exact (ifOnly (expr_segment hosts cond condRule condCode) branches assigned
            doneMark doneLeads).append (chain_segment hosts rest restRule hasSlot restCode)
    | foreach element elementType source body sym span ty =>
      cases rule with
      | plain wrong _ _ => nomatch wrong
      | foreach sourceRule _ _ bodyRule restRule =>
        cases code with
        | plain wrong _ _ => nomatch wrong
        | foreach _ within hasElement sourceCode acquires topMark topLeads advances
            storesElement bodyCode stores back exitMark exitLeads releases restCode =>
            have assigned := (hosts.store (h := h) hasElement storesElement).append
              ((block_segment hosts body bodyRule bodyCode).append
                (hosts.store hasSlot stores))
            have looped := loop within topMark topLeads advances assigned back exitMark
              exitLeads
            exact (expr_segment hosts source sourceRule sourceCode).append <|
              (straight acquires nofun within nofun (Nat.le_add_left _ _) rfl rfl).append <|
              looped.append <|
              (straight releases nofun within nofun (Nat.zero_le _) rfl rfl).append <|
              chain_segment hosts rest restRule hasSlot restCode
    | _ =>
      cases rule with
      | plain bodyRule _ restRule =>
        cases code with
        | plain bodyCode stores restCode => exact plain bodyRule restRule bodyCode stores restCode
termination_by structural _ _ _ _ _ _ _ _ bodies => bodies

theorem block_segment (hosts : site.Hosts program globals owner) :
    ∀ {set : List SymbolId} {ty : Ty} {low pc pc' h : Nat} (body : Block .typed),
      BlockHasType globals owner set body ty → site.BlockCode low body pc pc' →
      site.routine.Segment program [] pc pc' h (h + 1)
  | _, _, _, _, _, _, ⟨stmts, _, _⟩, .mk rule last, .mk code =>
    stmts_segment hosts stmts rule last code
termination_by structural _ _ _ _ _ _ body => body

theorem stmts_segment (hosts : site.Hosts program globals owner) :
    ∀ {set : List SymbolId} {ty : Ty} {low pc pc' h : Nat} (stmts : List (Stmt .typed)),
      StmtsTyped globals owner set stmts → Resolve.lastType? stmts = some ty →
      site.StmtsCode low stmts pc pc' → site.routine.Segment program [] pc pc' h (h + 1)
  | _, _, _, _, _, _, [], _, last, _ => nomatch last
  | _, _, _, _, _, _, .letIn _ _ first chained _ _ :: rest, rule, last, code => by
    obtain ⟨_, _, wrong, _⟩ | ⟨_, restLast⟩ := lastType?_cons last
    · cases wrong
    cases rule with
    | letIn firstRule _ _ chainRule restRule =>
      cases code with
      | letIn hasSlot firstCode stores chainCode restCode =>
        exact (expr_segment hosts first firstRule firstCode).append
          ((hosts.store hasSlot stores).append
            ((chain_segment hosts chained chainRule hasSlot chainCode).append
              (stmts_segment hosts rest restRule restLast restCode)))
  | _, _, _, _, _, _, .func .. :: rest, rule, last, code => by
    obtain ⟨_, _, wrong, _⟩ | ⟨_, restLast⟩ := lastType?_cons last
    · cases wrong
    cases rule with
    | func restRule =>
      cases code with
      | func restCode => exact stmts_segment hosts rest restRule restLast restCode
  | _, _, _, _, _, _, .record .. :: rest, rule, last, code => by
    obtain ⟨_, _, wrong, _⟩ | ⟨_, restLast⟩ := lastType?_cons last
    · cases wrong
    cases rule with
    | record restRule =>
      cases code with
      | record restCode => exact stmts_segment hosts rest restRule restLast restCode
  | _, _, _, _, _, _, .expr value :: rest, rule, last, code => by
    cases rule with
    | expr valueRule restRule =>
      cases code with
      | last valueCode => exact expr_segment hosts value valueRule valueCode
      | drop more valueCode pops restCode =>
        obtain ⟨none, _⟩ | ⟨_, restLast⟩ := lastType?_cons last
        · exact absurd none more
        exact (expr_segment hosts value valueRule valueCode).append <|
          (straight pops nofun trivial nofun (Nat.le_add_left _ _) rfl rfl).append <|
          stmts_segment hosts rest restRule restLast restCode
termination_by structural _ _ _ _ _ _ stmts => stmts

end

end Trees

theorem Linked.routine_verified {program : Program} {layout : Layout} {symbols : Symbols}
    {globals : Globals} (linked : Linked program layout symbols globals) {routine : Routine}
    (member : routine ∈ program.routines) : routine.Verified program 1 := by
  obtain ⟨index, bound, found⟩ := Array.mem_iff_getElem.mp member
  have listed := List.getElem?_eq_getElem (linked.count ▸ bound)
  obtain ⟨routine', present, implements⟩ := linked.routine index _ listed
  obtain rfl : routine' = routine := by
    rw [Array.getElem?_eq_getElem bound, found] at present
    exact (Option.some.inj present).symm
  obtain ⟨params, returns, isFunction, count, bodyRule⟩ :=
    linked.typed _ (List.mem_of_getElem? listed)
  obtain ⟨stop, code, ends, size⟩ := implements.code
  have hosts : Site.Hosts _ program globals _ :=
    ⟨linked, ⟨params, returns, isFunction, count.trans implements.params.symm⟩, implements.locals⟩
  exact verified (block_segment hosts _ bodyRule code) ends size implements.marks

theorem Linked.entry_verified {program : Program} {layout : Layout} {symbols : Symbols}
    {globals : Globals} (linked : Linked program layout symbols globals) {index : Nat}
    {main : FunctionDef} (found : globals.functions[index]? = some main) (noParams : main.params = 0) :
    (Program.entryOf index).Verified program 0 := by
  obtain ⟨routine, present, implements⟩ := linked.routine index main found
  have pops : Instr.pops program (.call index) = 0 := by
    rw [Instr.pops_call present, implements.params, noParams]
  have first : (Program.entryOf index).code[0]? = some (.call index) := rfl
  have second : (Program.entryOf index).code[1]? = some .writeLine := rfl
  have calls : (Program.entryOf index).Segment program [] 0 1 0 1 :=
    straight first nofun (Array.getElem?_eq_some_iff.mp present).1 nofun (by rw [pops]) rfl
      (by rw [pops]; rfl)
  have writes : (Program.entryOf index).Segment program [] 1 2 1 0 :=
    straight second nofun trivial nofun (Nat.le_refl _) rfl rfl
  exact verified (calls.append writes) rfl rfl (by simp [Program.entryOf])

/-- Whatever is parsed, resolved and generated is verified. -/
theorem generate_verified {source : String} {table names : NameTable} {m : Module .parsed}
    {resolved : Resolved} {mainName? : Option String} {program : Program}
    (parsed : (parseModule source table).1 = .ok m) (ran : m.resolve names = .ok resolved)
    (made : resolved.module.generate resolved.symbols mainName? = .ok program) : program.Verified := by
  obtain ⟨nodup, typed⟩ := m.resolve_typed (parseModule_isDeclaration parsed) ran
  obtain ⟨layout, index, main, linked, entry, found, -, noParams, orders⟩ :=
    resolved.generate_linked nodup typed made
  refine ⟨fun routine member => linked.routine_verified member, ?_, fun record member => ?_⟩
  · rw [entry]
    exact linked.entry_verified found noParams
  · rw [orders record member]

theorem generate_verified_negationText : ∃ m names resolved program,
    (parseModule negationText .empty).1 = .ok m ∧ m.resolve names = .ok resolved ∧
      resolved.module.generate resolved.symbols (some "Main") = .ok program ∧
      program.routines.size = 2 ∧ program.Verified := by
  obtain ⟨compilation, compiled, count, -⟩ := compile_negationText
  obtain ⟨m, names, parsed, ran, made⟩ := compile_eq_ok.mp compiled
  have read : (parseModule negationText .empty).1 = .ok m := by rw [parsed]
  have mainName := mainName?_parseModule negationText
  rw [parsed] at mainName
  rw [mainName] at made
  exact ⟨m, names, compilation.resolved, compilation.program, read, ran, made, count,
    generate_verified read ran made⟩

end LetChain
