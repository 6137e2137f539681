import LetChain.Typing.Ty

/-! Typed modules without some of their statements. -/

namespace LetChain

def Module.dropStmts (m : Module .typed) (dropped : List Nat) : Module .typed :=
  ⟨(m.stmts.zipIdx.filter fun (_, index) => !dropped.contains index).map Prod.fst⟩

end LetChain
