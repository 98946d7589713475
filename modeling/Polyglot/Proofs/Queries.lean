import Polyglot.Extract.Facts
import Polyglot.Proofs.Chains.Attempts
import Polyglot.Proofs.Declarations.Trace

/-!
This module contains the extractions of a language as queries that share one count of fallbacks. A
query is answered as if it were the only one, and adds to the counts what it would count alone, so
the order of the queries does not matter.
-/

namespace Polyglot

/--
What can be asked of a language about a node.
-/
inductive Query where
  | argument (n : Node)
  | arguments (list : Node)
  | callChain (n : Node)
  | callChains (root : Node)
  | declarations (root : Node)
  | imports (root : Node)
  | exports (root : Node)

inductive Answer where
  | argument (arg : Argument)
  | arguments (args : List Argument)
  | callChain (chain : Option CallChain)
  | callChains (chains : List CallChain)
  | declarations (decls : Declarations)
  | imports (decls : List ImportDecl)
  | exports (decls : List ExportDecl)

namespace Query

open CountM

def answer (language : Language) (scope : Scope) : Query → CountM Answer
  | argument n => return .argument (← Extract.argument language.grammar scope n)
  | arguments list => return .arguments (← Extract.arguments language.grammar scope list)
  | callChain n => return .callChain (← Extract.callChain language.grammar scope n)
  | callChains root => return .callChains (← Extract.callChains language.grammar scope root)
  | declarations root => return .declarations (← language.declarations scope root)
  | imports root => return .imports (language.imports root)
  | exports root => return .exports (language.exports root)

/--
Answer the queries one after the other, on the same counts.
-/
def answerAll (language : Language) (scope : Scope) (queries : List Query) :
    CountM (List Answer) :=
  queries.mapM (answer language scope)

variable (language : Language) (scope : Scope)

theorem additive_declarations (root : Node) : (language.declarations scope root).Additive := by
  have hwalk {ρ : Type} (planner : Extract.Planner ρ) (nodes : List Node)
      (assemble : List ρ → Declarations) :
      (do return assemble (← Extract.declarations planner scope nodes) : CountM _).Additive := by
    apply additive_bind_pure
    exact additive_of_run (Extract.run_declarations planner scope nodes)
  cases language with
  | rust => exact hwalk Rust.plan _ _
  | typescript => exact hwalk TypeScript.plan _ _
  | javascript => exact hwalk TypeScript.plan _ _
  | python => exact hwalk Python.plan _ _

theorem additive_answer (q : Query) : (q.answer language scope).Additive := by
  cases q with
  | argument n =>
    apply additive_bind_pure
    apply Extract.additive_argument
  | arguments list =>
    apply additive_bind_pure
    apply additive_mapM
    apply Extract.additive_argument
  | callChain n =>
    apply additive_bind_pure
    apply Extract.additive_callChain
  | callChains root =>
    apply additive_bind_pure
    exact additive_of_run (Extract.run_callChains_attempts language.grammar scope root)
  | declarations root =>
    apply additive_bind_pure
    apply additive_declarations
  | imports root => apply additive_pure
  | exports root => apply additive_pure

theorem run_answerAll (queries : List Query) (f : Fallbacks) :
    (answerAll language scope queries).run f =
      (queries.map fun q => (q.answer language scope).value,
        f + (queries.map fun q => (q.answer language scope).cost).sum) := by
  have hadditive := additive_answer language scope
  unfold answerAll
  rw [additive_mapM hadditive queries f, value_mapM hadditive, cost_mapM hadditive]

/--
Each query of a sequence is answered as on fresh counts. The counts grow by what the queries count
on fresh counts, and every order of the queries gives the same answers and the same counts.
-/
theorem answers_independent (queries : List Query) (f : Fallbacks) :
    let run := fun queries => (answerAll language scope queries).run f
    let alone := fun q : Query => (q.answer language scope).run 0
    (run queries).1 = queries.map (fun q => (alone q).1) ∧
    (run queries).2 = f + (queries.map fun q => (alone q).2).sum ∧
    ∀ permuted, permuted.Perm queries →
      (permuted.zip (run permuted).1).Perm (queries.zip (run queries).1) ∧
      (run permuted).2 = (run queries).2 := by
  intro run alone
  have hrun (queries : List Query) : run queries =
      (queries.map fun q => (alone q).1, f + (queries.map fun q => (alone q).2).sum) :=
    run_answerAll language scope queries f
  refine ⟨by rw [hrun], by rw [hrun], ?_⟩
  intro permuted hperm
  rw [hrun, hrun]
  constructor
  · rw [← List.map_prod_left_eq_zip, ← List.map_prod_left_eq_zip]
    exact hperm.map _
  · rw [(hperm.map _).sum_eq]

end Query

end Polyglot
