import Polyglot.Proofs.Chains.Dropped
import Polyglot.Proofs.Declarations.Trace

/-!
This module contains how often one long chain is walked. A walk that hits the limit finds nothing,
and the search begins again at the next link below a mark. The links that several walks come by are
counted by each of them, so the counts grow with the square of the length of the chain.
-/

namespace Polyglot

open CountM Extract

namespace Extract

variable {ρ : Type} {planner : Planner ρ} {scope : Scope} {n : Node} {depth : Nat}

/--
Nothing is declared at `n` or below, and the depth limit is not hit.
-/
inductive Quiet (planner : Planner ρ) (scope : Scope) : Node → (depth : Nat) → Prop where
  | intro {n : Node} {depth : Nat} (hdepth : depth ≤ scope.limits.maxTreeDepth)
    (hplan : planner scope [] n depth = .descendOnly)
    (hbelow : ∀ c ∈ n.namedChildren, Quiet planner scope c (depth + 1)) :
    Quiet planner scope n depth

theorem Quiet.cutOff (h : Quiet planner scope n depth) : scope.cutOff n depth = [] := by
  induction h with
  | intro hdepth _ _ ih =>
    rw [Scope.cutOff_eq, if_neg (Nat.not_lt_of_le hdepth)]
    exact List.flatMap_eq_nil_iff.2 ih

theorem Quiet.trace (h : Quiet planner scope n depth) : trace planner scope [] n depth = [] := by
  induction h with
  | intro hdepth hplan _ ih =>
    rw [trace_eq (Nat.zero_le _) hdepth, hplan]
    exact List.flatMap_eq_nil_iff.2 ih

end Extract

namespace Rust

/--
The argument list `(-x)` at the given offset.
-/
def negation (start : Nat) : Tree :=
  .node ⟨"arguments", true, false, some "arguments", start, start + 4⟩ [
    .node ⟨"(", false, false, none, start, start + 1⟩ [],
    .node ⟨"unary_expression", true, false, none, start + 1, start + 3⟩ [
      .node ⟨"-", false, false, none, start + 1, start + 2⟩ [],
      .node ⟨"identifier", true, false, none, start + 2, start + 3⟩ []],
    .node ⟨")", false, false, none, start + 3, start + 4⟩ []]

/--
The call `.f(-x)` on a receiver that begins the file.
-/
def negationCall (receiver : Tree) : Tree :=
  let stop := receiver.label.stop
  .node ⟨"call_expression", true, false, none, 0, stop + 6⟩ [
    .node ⟨"field_expression", true, false, some "function", 0, stop + 2⟩ [
      receiver,
      .node ⟨".", false, false, none, stop, stop + 1⟩ [],
      .node ⟨"field_identifier", true, false, some "field", stop + 1, stop + 2⟩ []],
    negation (stop + 2)]

/--
The expression `a.f(-x)?.f(-x)?` with the given number of calls in place of two.
-/
def tryChain (field : Option String) : (calls : Nat) → Tree
  | 0 => .node ⟨"identifier", true, false, field, 0, 1⟩ []
  | calls + 1 =>
    let call := negationCall (tryChain (some "value") calls)
    let stop := call.label.stop
    .node ⟨"try_expression", true, false, field, 0, stop + 1⟩ [
      call,
      .node ⟨"?", false, false, none, stop, stop + 1⟩ []]

/--
The file `a.f(-x)?.f(-x)?;` with the given number of calls in place of two.
-/
def tryFile (calls : Nat) : Node :=
  let chain := tryChain none calls
  let stop := chain.label.stop
  .root (.ofString ("a" ++ String.join (List.replicate calls ".f(-x)?") ++ ";"))
    (.node ⟨"source_file", true, false, none, 0, stop + 1⟩ [
      .node ⟨"expression_statement", true, false, none, 0, stop + 1⟩ [
        chain,
        .node ⟨";", false, false, none, stop, stop + 1⟩ []]])

variable {n : Node} {field : Option String} {calls : Nat}

theorem classifyChain_of_try (hn : n.tree = tryChain field (calls + 1)) :
    ∃ m : Node, m.tree = negationCall (tryChain (some "value") calls) ∧
      m.parentKind? = some "try_expression" ∧ n.namedChildren = [m] ∧
      grammar.classifyChain n = .suspend "?" m := by
  obtain ⟨source, _, above⟩ := n
  obtain rfl := hn
  exact ⟨_, rfl, rfl, rfl, rfl⟩

theorem classifyChain_of_call (hn : n.tree = negationCall (tryChain (some "value") calls)) :
    ∃ name list m : Node, grammar.classifyChain n = .methodCall name (some list) m ∧
      (∃ start, list.tree = negation start) ∧ m.tree = tryChain (some "value") calls := by
  obtain ⟨source, _, above⟩ := n
  obtain rfl := hn
  have hcallee (callee : Node) (list : Option Node) (h : callee.kind = "field_expression") :
      calleeStep callee list =
        .ofMethod callee list (callee.field? "field") (callee.field? "value") := by
    rw [calleeStep, h]
    rfl
  cases calls with
  | zero => exact ⟨_, _, _, hcallee _ _ rfl, ⟨_, rfl⟩, rfl⟩
  | succ calls => exact ⟨_, _, _, hcallee _ _ rfl, ⟨_, rfl⟩, rfl⟩

/--
The named nodes below a call: its callee with the receiver and the name, and its argument list.
-/
structure CallParts (calls : Nat) (n callee list m name : Node) : Prop where
  children : n.namedChildren = [callee, list]
  below : callee.namedChildren = [m, name]
  kind : callee.kind = "field_expression"
  parent : callee.parentKind? = some "call_expression"
  arguments : ∃ start, list.tree = negation start
  receiver : m.tree = tryChain (some "value") calls
  receiverParent : m.parentKind? = some "field_expression"
  nameKind : name.kind = "field_identifier"
  leaf : name.namedChildren = []

theorem exists_callParts (hn : n.tree = negationCall (tryChain (some "value") calls)) :
    ∃ callee list m name, CallParts calls n callee list m name := by
  obtain ⟨source, _, above⟩ := n
  obtain rfl := hn
  cases calls with
  | zero => exact ⟨_, _, _, _, rfl, rfl, rfl, rfl, ⟨_, rfl⟩, rfl, rfl, rfl, rfl⟩
  | succ calls => exact ⟨_, _, _, _, rfl, rfl, rfl, rfl, ⟨_, rfl⟩, rfl, rfl, rfl, rfl⟩

section Walk

/--
The walks from `n` come to an end after the given links if they may take more steps. They count the
given number of unknown arguments, and leave the given number of them in the segments at the end.
-/
def Walks (scope : Scope) (links unknown counted steps : Nat) (n : Node) : Prop :=
  ∀ segments,
    let x := walkChain grammar scope steps n segments
    x.cost = { unknownArgs := counted, depthLimitedChains := if links < steps then 0 else 1 } ∧
    (x.value.isSome ↔ links < steps) ∧
    ∀ found ∈ x.value, ∃ new, found.2 = new ++ segments ∧
      (new.map Segment.unlabelled).sum = unknown ∧ (unknown ≠ 0 → new.any (·.isCall))

variable {scope : Scope} {links unknown counted steps : Nat}

theorem walks_zero (links unknown : Nat) (n : Node) : Walks scope links unknown 0 0 n :=
  fun _ => ⟨rfl, ⟨nofun, nofun⟩, nofun⟩

theorem Walks.of_next {spent : Nat} {m : Node} {segment : Segment}
    (hm : Walks scope links unknown counted steps m)
    (hnext : (grammar.classifyChain n).next? = some m)
    (hcost : (segmentAt grammar scope n).cost = { unknownArgs := spent })
    (hsegment : (segmentAt grammar scope n).value = some segment)
    (hspent : segment.unlabelled = spent) (hcall : spent ≠ 0 → segment.isCall) :
    Walks scope (links + 1) (unknown + spent) (counted + spent) (steps + 1) n := by
  intro segments
  obtain ⟨hcounted, hsome, hfound⟩ := hm (segment :: segments)
  simp only [cost_walkChain_of_next scope steps segments hnext,
    value_walkChain_of_next scope steps segments hnext, hsegment, hcost, Option.toList_some,
    List.singleton_append, Nat.add_lt_add_iff_right]
  refine ⟨?_, hsome, ?_⟩
  · rw [hcounted]
    simp [Fallbacks.add_def, Fallbacks.add, Nat.add_comm]
  · intro found hmem
    obtain ⟨new, hnew, hsum, hany⟩ := hfound found hmem
    refine ⟨new ++ [segment], ?_, ?_, ?_⟩
    · rw [hnew, List.append_assoc, List.singleton_append]
    · simp [hsum, hspent]
    · intro h
      rw [List.any_append, Bool.or_eq_true]
      by_cases hspent : spent = 0
      · exact .inl (hany (by omega))
      · exact .inr (by simp [hcall hspent])

theorem Walks.of_try (hn : n.tree = tryChain field (calls + 1))
    (h : ∀ m : Node, m.tree = negationCall (tryChain (some "value") calls) →
      Walks scope links unknown counted steps m) :
    Walks scope (links + 1) unknown counted (steps + 1) n := by
  obtain ⟨m, hm, -, -, hstep⟩ := classifyChain_of_try hn
  have hsegment : segmentAt grammar scope n = stepSegment grammar scope n (.suspend "?" m) := by
    rw [segmentAt, hstep]
  have hnext : (grammar.classifyChain n).next? = some m := by
    rw [hstep]
    rfl
  have hcost : (segmentAt grammar scope n).cost = { unknownArgs := 0 } := congrArg cost hsegment
  exact (h m hm).of_next hnext hcost (congrArg value hsegment) rfl fun hspent => absurd rfl hspent

theorem run_callArguments_negation (scope : Scope) {list : Node} {start : Nat}
    (hlist : list.tree = negation start) :
    ∃ position text, (callArguments grammar scope (some list)).run 0 =
      ([⟨.unknown none, position, text⟩], { unknownArgs := 1 }) := by
  obtain ⟨source, _, above⟩ := list
  obtain rfl := hlist
  exact ⟨_, _, rfl⟩

theorem Walks.of_call (hn : n.tree = negationCall (tryChain (some "value") calls))
    (h : ∀ m : Node, m.tree = tryChain (some "value") calls →
      Walks scope links unknown counted steps m) :
    Walks scope (links + 1) (unknown + 1) (counted + 1) (steps + 1) n := by
  obtain ⟨name, list, m, hstep, ⟨start, hlist⟩, hm⟩ := classifyChain_of_call hn
  obtain ⟨position, text, hrun⟩ := run_callArguments_negation scope hlist
  have hsegment : (segmentAt grammar scope n).run 0 =
      (some (.call name.text [⟨.unknown none, position, text⟩] name.start),
        { unknownArgs := 1 }) := by
    rw [segmentAt, hstep, stepSegment, StateT.run_bind, hrun]
    rfl
  have hnext : (grammar.classifyChain n).next? = some m := by
    rw [hstep]
    rfl
  apply (h m hm).of_next hnext (congrArg Prod.snd hsegment) (congrArg Prod.fst hsegment) _
    fun _ => rfl
  simp [Segment.unlabelled, Segment.call, Located.unlabelled, ArgumentKind.unlabelled]

theorem walks_identifier (hn : n.tree = tryChain field 0) (steps : Nat) :
    Walks scope 0 0 0 steps n := by
  obtain ⟨source, _, above⟩ := n
  obtain rfl := hn
  cases steps with
  | zero => exact walks_zero 0 0 _
  | succ steps =>
    intro segments
    refine ⟨rfl, ⟨fun _ => steps.succ_pos, fun _ => rfl⟩, ?_⟩
    intro found hfound
    cases hfound
    exact ⟨[], rfl, rfl, fun h => absurd rfl h⟩

/--
Every second step of a walk comes by a call and counts its argument.
-/
theorem walks_try (scope : Scope) (hn : n.tree = tryChain field calls) (steps : Nat) :
    Walks scope (2 * calls) calls (min calls (steps / 2)) steps n := by
  induction calls generalizing n field steps with
  | zero =>
    rw [Nat.zero_min]
    exact walks_identifier hn steps
  | succ calls ih =>
    match steps with
    | 0 => exact walks_zero _ _ n
    | 1 => exact .of_try hn fun m _ => walks_zero (2 * calls + 1) (calls + 1) m
    | steps + 2 =>
      have hmin : min (calls + 1) ((steps + 2) / 2) = min calls (steps / 2) + 1 := by omega
      rw [hmin]
      exact .of_try hn fun c hc => .of_call hc fun m hm => ih hm steps

theorem walks_call (scope : Scope) (hn : n.tree = negationCall (tryChain (some "value") calls))
    (limit : Nat) :
    Walks scope (2 * calls + 1) (calls + 1) (min (calls + 1) limit) (2 * limit) n := by
  cases limit with
  | zero => exact walks_zero _ _ n
  | succ limit =>
    have hmin : min (calls + 1) (limit + 1) = min calls ((2 * limit + 1) / 2) + 1 := by omega
    rw [hmin]
    exact .of_call hn fun m hm => walks_try scope hm (2 * limit + 1)

end Walk

section Search

variable {scope : Scope} {links unknown counted : Nat}

theorem Walks.chainAt?_eq_none (h : Walks scope links unknown counted scope.limits.maxChainDepth n)
    (hlimit : scope.limits.maxChainDepth ≤ links) : chainAt? grammar scope n = none := by
  have hnone : (walkChain grammar scope scope.limits.maxChainDepth n []).value = none := by
    rw [← Option.not_isSome_iff_eq_none, (h []).2.1]
    omega
  rw [chainAt?, callChain_eq, value_bind_pure (additive_walkChain _ _ _ _ _), hnone]
  rfl

theorem Walks.chainAt?_eq_some (h : Walks scope links unknown counted scope.limits.maxChainDepth n)
    (hlimit : links < scope.limits.maxChainDepth) (hunknown : unknown ≠ 0) :
    ∃ chain, chainAt? grammar scope n = some chain ∧ chain.unlabelled = unknown := by
  obtain ⟨-, hsome, hfound⟩ := h []
  obtain ⟨⟨receiver, segments⟩, hvalue⟩ := Option.isSome_iff_exists.1 (hsome.2 hlimit)
  obtain ⟨new, hnew, hsum, hany⟩ := hfound _ hvalue
  obtain rfl : segments = new := by simpa using hnew
  have hcall := hany hunknown
  have hchain : (callChain grammar scope n).value = chainOf? scope n receiver segments := by
    rw [callChain_eq, value_bind_pure (additive_walkChain _ _ _ _ _), hvalue, Option.bind_some]
  rw [chainAt?, hchain]
  cases segments with
  | nil => cases hcall
  | cons segment rest => exact ⟨_, Option.filter_some_pos hcall, hsum⟩

/--
What walks from the given nodes count and leave: the unknown arguments, the chains beyond the limit,
and the unknown arguments in the chains that are found.
-/
def Finds (scope : Scope) (counted overlong unknown : Nat) (ns : List Node) : Prop :=
  costAt grammar scope ns = { unknownArgs := counted, depthLimitedChains := overlong } ∧
    ((chainsAt grammar scope ns).map (·.2.unlabelled)).sum = unknown

theorem Walks.finds_singleton
    (h : Walks scope links unknown counted scope.limits.maxChainDepth n)
    (hlimit : links < scope.limits.maxChainDepth) (hunknown : unknown ≠ 0) :
    Finds scope counted 0 unknown [n] := by
  constructor
  · rw [costAt, List.map_singleton, List.sum_singleton, cost_callChain, (h []).1, if_pos hlimit]
  · obtain ⟨chain, hchain, hunlabelled⟩ := h.chainAt?_eq_some hlimit hunknown
    simp [chainsAt, hchain, hunlabelled]

theorem Walks.finds_cons {counted' overlong unknown' : Nat} {ns : List Node}
    (h : Walks scope links unknown counted scope.limits.maxChainDepth n)
    (hlimit : scope.limits.maxChainDepth ≤ links)
    (hns : Finds scope counted' overlong unknown' ns) :
    Finds scope (counted' + counted) (overlong + 1) unknown' (n :: ns) := by
  constructor
  · have hcost : costAt grammar scope (n :: ns) =
        (callChain grammar scope n).cost + costAt grammar scope ns := rfl
    rw [hcost, hns.1, cost_callChain, (h []).1, if_neg (Nat.not_lt_of_le hlimit), add_comm]
    rfl
  · have hnone := h.chainAt?_eq_none hlimit
    rw [chainsAt, List.filterMap_cons_none (by rw [hnone, Option.map_none])]
    exact hns.2

variable {depth limit : Nat}

theorem attempts_negation {start : Nat} (hn : n.tree = negation start) :
    attempts grammar scope n depth = [] := by
  obtain ⟨source, _, above⟩ := n
  obtain rfl := hn
  apply attempts_eq_nil rfl
  intro c hc
  obtain rfl := List.mem_singleton.1 hc
  apply attempts_eq_nil rfl
  intro c hc
  obtain rfl := List.mem_singleton.1 hc
  exact attempts_eq_nil rfl nofun

theorem isOutermost_eq_false {kind : String} (hparent : n.parentKind? = some kind)
    (hlink : grammar.isLink kind) : isOutermost grammar n = false := by
  rw [isOutermost, hparent, Option.any_some, hlink, Bool.not_true, Bool.and_false]

/--
Below a call the search begins no walk before the next call.
-/
theorem attempts_below_call (hn : n.tree = negationCall (tryChain (some "value") (calls + 1)))
    (hdepth : depth + 2 ≤ scope.limits.maxTreeDepth) :
    ∃ c : Node, c.tree = negationCall (tryChain (some "value") calls) ∧
      c.parentKind? = some "try_expression" ∧
      n.namedChildren.flatMap (attempts grammar scope · (depth + 1)) =
        attempts grammar scope c (depth + 3) := by
  obtain ⟨callee, list, m, name, h⟩ := exists_callParts hn
  obtain ⟨start, hlist⟩ := h.arguments
  obtain ⟨c, hc, hparent, hbelow, -⟩ := classifyChain_of_try h.receiver
  have hname : attempts grammar scope name (depth + 2) = [] := by
    apply attempts_eq_nil
    · rw [isOutermost, h.nameKind]
      rfl
    · rw [h.leaf]
      exact List.forall_mem_nil _
  refine ⟨c, hc, hparent, ?_⟩
  rw [h.children, List.flatMap_cons, List.flatMap_singleton, attempts_negation hlist,
    List.append_nil, attempts_of_inner (isOutermost_eq_false h.parent rfl) (by omega), h.below,
    List.flatMap_cons, List.flatMap_singleton, hname, List.append_nil,
    attempts_of_inner (isOutermost_eq_false h.receiverParent rfl) hdepth, hbelow,
    List.flatMap_singleton]

theorem isOutermost_call {receiver : Tree} (hn : n.tree = negationCall receiver)
    (hparent : n.parentKind? = some "try_expression") : isOutermost grammar n := by
  rw [isOutermost, Node.kind, Node.label, hn, hparent]
  rfl

variable (hlimit : scope.limits.maxChainDepth = 2 * limit)

include hlimit

theorem walks_call_of_le (hn : n.tree = negationCall (tryChain (some "value") calls))
    (hle : limit ≤ calls + 1) :
    Walks scope (2 * calls + 1) (calls + 1) limit scope.limits.maxChainDepth n := by
  have h := walks_call scope hn limit
  rwa [Nat.min_eq_right hle, ← hlimit] at h

variable (hpos : 0 < limit)

include hpos

/--
The search begins a walk at every call with more calls than the limit allows, and finds a chain at
the first one without.
-/
theorem finds_call {excess : Nat} (hn : n.tree = negationCall (tryChain (some "value") calls))
    (hparent : n.parentKind? = some "try_expression") (hcalls : calls + 1 = limit + excess)
    (hdepth : depth + 3 * calls ≤ scope.limits.maxTreeDepth) :
    Finds scope ((excess + 1) * limit) excess limit (attempts grammar scope n depth) := by
  induction excess generalizing n depth calls with
  | zero =>
    have hwalks := walks_call_of_le hlimit hn (by omega)
    have hend : 2 * calls + 1 < scope.limits.maxChainDepth := by omega
    obtain ⟨chain, hchain, -⟩ := hwalks.chainAt?_eq_some hend calls.succ_ne_zero
    rw [attempts_of_some (isOutermost_call hn hparent) (by omega) hchain, Nat.zero_add, Nat.one_mul]
    rw [hcalls] at hwalks
    exact hwalks.finds_singleton hend (by omega)
  | succ excess ih =>
    obtain ⟨calls, rfl⟩ : ∃ k, calls = k + 1 := ⟨calls - 1, by omega⟩
    have hwalks := walks_call_of_le hlimit hn (by omega)
    have hbeyond : scope.limits.maxChainDepth ≤ 2 * (calls + 1) + 1 := by omega
    have htwo : depth + 2 ≤ scope.limits.maxTreeDepth := by omega
    obtain ⟨c, hc, hcparent, hbelow⟩ := attempts_below_call hn htwo
    rw [attempts_of_none (isOutermost_call hn hparent) (by omega) (hwalks.chainAt?_eq_none hbeyond),
      hbelow, Nat.succ_mul]
    exact hwalks.finds_cons hbeyond (ih hc hcparent (by omega) (by omega))

theorem finds_try (hn : n.tree = tryChain field calls)
    (hparent : n.parentKind? = some "expression_statement") (hle : limit ≤ calls)
    (hdepth : depth + 3 * calls ≤ scope.limits.maxTreeDepth) :
    Finds scope ((calls - limit + 2) * limit) (calls - limit + 1) limit
      (attempts grammar scope n depth) := by
  obtain ⟨calls, rfl⟩ : ∃ k, calls = k + 1 := ⟨calls - 1, by omega⟩
  obtain ⟨c, hc, hcparent, hbelow, -⟩ := classifyChain_of_try hn
  have houter : isOutermost grammar n := by
    rw [isOutermost, Node.kind, Node.label, hn, hparent]
    rfl
  have hwalks := walks_try scope hn (2 * limit)
  rw [← hlimit] at hwalks
  have hbeyond : scope.limits.maxChainDepth ≤ 2 * (calls + 1) := by omega
  have hcounted : min (calls + 1) (scope.limits.maxChainDepth / 2) = limit := by omega
  rw [hcounted] at hwalks
  have hcalls : calls + 1 = limit + (calls + 1 - limit) := by omega
  have hfinds : Finds scope ((calls + 1 - limit + 1) * limit) (calls + 1 - limit) limit
      (attempts grammar scope c (depth + 1)) :=
    finds_call hlimit hpos hc hcparent hcalls (by omega)
  rw [attempts_of_none houter (by omega) (hwalks.chainAt?_eq_none hbeyond), hbelow,
    List.flatMap_singleton, Nat.succ_mul]
  exact hwalks.finds_cons hbeyond hfinds

end Search

section Quiet

variable {scope : Scope} {depth : Nat}

theorem quiet_negation {start : Nat} (hn : n.tree = negation start)
    (hdepth : depth + 2 ≤ scope.limits.maxTreeDepth) : Quiet plan scope n depth := by
  obtain ⟨source, _, above⟩ := n
  obtain rfl := hn
  refine ⟨by omega, rfl, ?_⟩
  intro c hc
  obtain rfl := List.mem_singleton.1 hc
  refine ⟨by omega, rfl, ?_⟩
  intro c hc
  obtain rfl := List.mem_singleton.1 hc
  exact ⟨hdepth, rfl, nofun⟩

theorem plan_of_kind {kind : String} (hn : n.kind = kind)
    (h : kind ∈ ["try_expression", "call_expression", "field_expression", "field_identifier"]) :
    plan scope [] n depth = .descendOnly := by
  simp only [List.mem_cons, List.not_mem_nil, or_false] at h
  obtain rfl | rfl | rfl | rfl := h
  all_goals
    rw [plan, hn]
    rfl

theorem quiet_call (hn : n.tree = negationCall (tryChain (some "value") calls))
    (hdepth : depth + 3 ≤ scope.limits.maxTreeDepth)
    (h : ∀ m : Node, m.tree = tryChain (some "value") calls → Quiet plan scope m (depth + 2)) :
    Quiet plan scope n depth := by
  obtain ⟨callee, list, m, name, hparts⟩ := exists_callParts hn
  obtain ⟨start, hlist⟩ := hparts.arguments
  have hkind : n.kind = "call_expression" := by
    rw [Node.kind, Node.label, hn]
    rfl
  have hname : Quiet plan scope name (depth + 2) := by
    refine ⟨by omega, plan_of_kind hparts.nameKind (by decide), ?_⟩
    rw [hparts.leaf]
    exact List.forall_mem_nil _
  refine ⟨by omega, plan_of_kind hkind (by decide), ?_⟩
  rw [hparts.children, List.forall_mem_cons, List.forall_mem_singleton]
  refine ⟨⟨by omega, plan_of_kind hparts.kind (by decide), ?_⟩, quiet_negation hlist hdepth⟩
  rw [hparts.below, List.forall_mem_cons, List.forall_mem_singleton]
  exact ⟨h m hparts.receiver, hname⟩

theorem quiet_try (hn : n.tree = tryChain field calls)
    (hdepth : depth + 3 * calls + 1 ≤ scope.limits.maxTreeDepth) : Quiet plan scope n depth := by
  induction calls generalizing n field depth with
  | zero =>
    obtain ⟨source, _, above⟩ := n
    obtain rfl := hn
    exact ⟨by omega, rfl, nofun⟩
  | succ calls ih =>
    obtain ⟨c, hc, -, hbelow, -⟩ := classifyChain_of_try hn
    have hnkind : n.kind = "try_expression" := by
      rw [Node.kind, Node.label, hn]
      rfl
    refine ⟨by omega, plan_of_kind hnkind (by decide), ?_⟩
    rw [hbelow, List.forall_mem_singleton]
    exact quiet_call hc (by omega) fun m hm => ih hm (by omega)

end Quiet

theorem namedChildren_tryFile (calls : Nat) :
    ∃ statement m : Node, (tryFile calls).namedChildren = [statement] ∧
      statement.namedChildren = [m] ∧ statement.kind = "expression_statement" ∧
      m.tree = tryChain none calls ∧ m.parentKind? = some "expression_statement" := by
  cases calls with
  | zero => exact ⟨_, _, rfl, rfl, rfl, rfl, rfl⟩
  | succ calls => exact ⟨_, _, rfl, rfl, rfl, rfl, rfl⟩

end Rust

namespace Facts

open Rust

/--
One long chain is counted with the square of its length, while the chain that is found in the end
has no more calls than the limit allows.
-/
theorem ofTree_tryFile (scope : Scope) (limit calls : Nat)
    (hlimit : scope.limits.maxChainDepth = 2 * limit) (hpos : 0 < limit) (hle : limit ≤ calls)
    (hdepth : 3 * calls + 3 ≤ scope.limits.maxTreeDepth) :
    let facts := ofTree .rust scope (tryFile calls)
    facts.fallbacks =
      { unknownArgs := (calls - limit + 2) * limit, depthLimitedChains := calls - limit + 1 } ∧
    facts.unlabelled = limit := by
  intro facts
  obtain ⟨statement, m, hfile, hstatement, hkind, hm, hparent⟩ := namedChildren_tryFile calls
  have hattempts : attempts grammar scope (tryFile calls) 0 = attempts grammar scope m 2 := by
    have hinner : isOutermost grammar statement = false := by
      rw [isOutermost, hkind]
      rfl
    rw [attempts_of_inner rfl (Nat.zero_le _), hfile, List.flatMap_singleton,
      attempts_of_inner hinner (by omega), hstatement, List.flatMap_singleton]
  have hquiet {depth : Nat} (h : depth ≤ 1) : Quiet plan scope statement depth := by
    refine ⟨by omega, ?_, ?_⟩
    · rw [plan, hkind]
      rfl
    · rw [hstatement, List.forall_mem_singleton]
      exact quiet_try hm (by omega)
  have hcutOff : scope.cutOff (tryFile calls) 0 = [] := by
    rw [Scope.cutOff_eq, if_neg (Nat.not_lt_zero _), hfile, List.flatMap_singleton]
    exact (hquiet le_rfl).cutOff
  have htrace : traceAll plan scope (tryFile calls).namedChildren = [] := by
    rw [traceAll, hfile, List.flatMap_singleton]
    exact (hquiet zero_le_one).trace
  have hdeclarations : (Language.rust.declarations scope (tryFile calls)).cost = 0 := by
    have hrun := run_declarations plan scope (tryFile calls).namedChildren
    rw [htrace] at hrun
    change (Rust.declarations scope (tryFile calls)).cost = 0
    rw [Rust.declarations, cost_bind (additive_of_run hrun) fun _ => additive_pure _,
      cost_of_run hrun]
    rfl
  obtain ⟨hcost, hchains⟩ : Finds scope ((calls - limit + 2) * limit) (calls - limit + 1) limit
      (attempts grammar scope m 2) :=
    finds_try hlimit hpos hm hparent hle (by omega)
  constructor
  · rw [fallbacks_ofTree, hdeclarations, hcutOff, show Language.rust.grammar = grammar from rfl,
      hattempts, hcost]
    rfl
  · rw [unlabelled, callChains_ofTree, show Language.rust.grammar = grammar from rfl, hattempts,
      List.map_map]
    exact hchains

end Facts

end Polyglot
