import Lox.Stmt.Basic
set_option autoImplicit false

/-! Loading gives every function declaration of a program a label of its own, in the order in which
the declarations are written. Two declarations are the same function exactly when their labels
agree, however alike they are. -/

namespace Lox

mutual

/-- The statement with its declarations labelled from `next` on, and the next label to give. -/
def Stmt.labelled (next : Nat) : Stmt → Stmt × Nat
  | .function _ name parameters body =>
    let (body, after) := Stmt.labelledAll (next + 1) body
    (.function next name parameters body, after)
  | .block statements =>
    let (statements, after) := Stmt.labelledAll next statements
    (.block statements, after)
  | .branch condition thenBranch none =>
    let (thenBranch, after) := thenBranch.labelled next
    (.branch condition thenBranch none, after)
  | .branch condition thenBranch (some elseBranch) =>
    let (thenBranch, middle) := thenBranch.labelled next
    let (elseBranch, after) := elseBranch.labelled middle
    (.branch condition thenBranch (some elseBranch), after)
  | .loop condition body =>
    let (body, after) := body.labelled next
    (.loop condition body, after)
  | other => (other, next)

def Stmt.labelledAll (next : Nat) : List Stmt → List Stmt × Nat
  | [] => ([], next)
  | first :: others =>
    let (first, middle) := first.labelled next
    let (others, after) := Stmt.labelledAll middle others
    (first :: others, after)

end

end Lox
