import Polyglot.Proofs.Chains.Walk
import Polyglot.Proofs.Locality

/-!
This module contains chained expressions as they are written, with the syntax trees that the parsers
give for them. The walk goes over such a tree from the outside to the inside, and returns the links
in the order in which they are written.
-/

namespace Polyglot

/--
Where a node stands in the source text.
-/
structure Extent where
  start : Nat
  stop : Nat
  hasError : Bool

namespace Tree

def branch (kind : String) (extent : Extent) (children : List Tree) : Tree :=
  node ⟨kind, true, extent.hasError, none, extent.start, extent.stop⟩ children

def token (text : String) (extent : Extent) : Tree :=
  node ⟨text, false, extent.hasError, none, extent.start, extent.stop⟩ []

/--
The tree as a child that its parent holds under a field name.
-/
def inRole (role : Option String) (t : Tree) : Tree :=
  node { t.label with field := role } t.children

end Tree

/--
How the parser of a language spells chained expressions.
-/
structure Spelling where
  call : String
  access : String
  base : String
  member : String
  index : String
  indexed : Option String
  await : String
  awaitComesFirst : Bool

/--
The kinds of callees that are neither an identifier nor a field access.
-/
def Spelling.computedKinds (s : Spelling) : List String :=
  [s.call, s.await, s.index, "try_expression", "parenthesized_expression"]

def Language.spelling : Language → Spelling
  | rust =>
    { call := "call_expression", access := "field_expression", base := "value", member := "field"
      index := "index_expression", indexed := none
      await := "await_expression", awaitComesFirst := false }
  | typescript | javascript =>
    { call := "call_expression", access := "member_expression", base := "object"
      member := "property", index := "subscript_expression", indexed := some "object"
      await := "await_expression", awaitComesFirst := true }
  | python =>
    { call := "call", access := "attribute", base := "object", member := "attribute"
      index := "subscript", indexed := some "value"
      await := "await", awaitComesFirst := true }

section Callees

variable {callee : Node}

theorem Rust.calleeStep_identifier (h : callee.kind = "identifier") (arguments : Option Node) :
    Rust.calleeStep callee arguments = .freeCall callee arguments := by
  rw [calleeStep, h]
  rfl

theorem Rust.calleeStep_field (h : callee.kind = "field_expression") (arguments : Option Node) :
    Rust.calleeStep callee arguments =
      .ofMethod callee arguments (callee.field? "field") (callee.field? "value") := by
  rw [calleeStep, h]
  rfl

theorem Rust.calleeStep_computed (h : callee.kind ∈ Language.rust.spelling.computedKinds)
    (arguments : Option Node) : Rust.calleeStep callee arguments = .invoke callee arguments := by
  rw [calleeStep]
  split
  -- A computed callee has none of the kinds that are looked into.
  iterate 4
    next hkind =>
      rw [hkind] at h
      exact absurd h (by decide)
  rfl

theorem TypeScript.calleeStep_computed
    (h : callee.kind ∈ Language.typescript.spelling.computedKinds)
    (arguments : Option Node) :
    TypeScript.calleeStep callee arguments = .invoke callee arguments := by
  rw [calleeStep]
  split
  iterate 4
    next hkind =>
      rw [hkind] at h
      exact absurd h (by decide)
  rfl

theorem Python.calleeStep_computed (h : callee.kind ∈ Language.python.spelling.computedKinds)
    (arguments : Option Node) : Python.calleeStep callee arguments = .invoke callee arguments := by
  rw [calleeStep]
  split
  iterate 2
    next hkind =>
      rw [hkind] at h
      exact absurd h (by decide)
  rfl

end Callees

/--
An expression that begins with an identifier or a bare call and goes on with links. A callee is
computed unless it is an identifier or a field access.
-/
inductive Chained (language : Language) : (computed : Bool) → Type where
  | identifier (extent : Extent) : Chained language false
  | call (extent name : Extent) (arguments : Tree) : Chained language true
  | method {computed : Bool} (extent callee : Extent) (base : Chained language computed)
      (dot name arguments : Tree) : Chained language true
  | field {computed : Bool} (extent : Extent) (base : Chained language computed)
      (dot name : Tree) : Chained language false
  | invoke (extent : Extent) (callee : Chained language true) (arguments : Tree) :
      Chained language true
  | await {computed : Bool} (extent dot mark : Extent) (operand : Chained language computed) :
      Chained language true
  | propagate {computed : Bool} (rust : language = .rust) (extent mark : Extent)
      (operand : Chained language computed) : Chained language true
  | index {computed : Bool} (extent : Extent) (base : Chained language computed)
      (brackets : List Tree) : Chained language true
  | parentheses {computed : Bool} (extent opening closing : Extent)
      (inner : Chained language computed) : Chained language true

namespace Chained

variable {language : Language} {computed : Bool}

/--
The syntax tree of an expression.
-/
def tree : {computed : Bool} → Chained language computed → Tree
  | _, identifier extent => .branch "identifier" extent []
  | _, call extent name arguments =>
    .branch language.spelling.call extent
      [(Tree.branch "identifier" name []).inRole (some "function"),
        arguments.inRole (some "arguments")]
  | _, method extent callee base dot name arguments =>
    .branch language.spelling.call extent
      [(Tree.branch language.spelling.access callee
          [base.tree.inRole (some language.spelling.base), dot.inRole none,
            name.inRole (some language.spelling.member)]).inRole (some "function"),
        arguments.inRole (some "arguments")]
  | _, field extent base dot name =>
    .branch language.spelling.access extent
      [base.tree.inRole (some language.spelling.base), dot.inRole none,
        name.inRole (some language.spelling.member)]
  | _, invoke extent callee arguments =>
    .branch language.spelling.call extent
      [callee.tree.inRole (some "function"), arguments.inRole (some "arguments")]
  | _, await extent dot mark operand =>
    .branch language.spelling.await extent
      (if language.spelling.awaitComesFirst then [.token "await" mark, operand.tree.inRole none]
      else [operand.tree.inRole none, .token "." dot, .token "await" mark])
  | _, propagate _ extent mark operand =>
    .branch "try_expression" extent [operand.tree.inRole none, .token "?" mark]
  | _, index extent base brackets =>
    .branch language.spelling.index extent
      (base.tree.inRole language.spelling.indexed :: brackets)
  | _, parentheses extent opening closing inner =>
    .branch "parenthesized_expression" extent
      [.token "(" opening, inner.tree.inRole none, .token ")" closing]

theorem isNamed_tree (e : Chained language computed) : e.tree.label.isNamed = true := by
  cases e with
  | _ => rfl

theorem kind_tree_of_computed (e : Chained language true) :
    e.tree.label.kind ∈ language.spelling.computedKinds := by
  cases e with
  | _ => simp [tree, Tree.branch, Spelling.computedKinds]

theorem kind_tree_ne_mark (e : Chained .rust computed) :
    e.tree.label.kind ≠ "await" ∧ e.tree.label.kind ≠ "?" := by
  cases e with
  | _ => simp [tree, Tree.branch, Language.spelling]

section Classification

variable (source : Source) (role : Option String) (above : List Frame)

theorem classifyChain_identifier (language : Language) (extent : Extent) :
    language.grammar.classifyChain
      ⟨source, (identifier extent : Chained language false).tree.inRole role, above⟩ =
        .terminal := by
  cases language with
  | _ => rfl

theorem classifyChain_call (language : Language) (extent name : Extent) (arguments : Tree) :
    ∃ above₁ above₂, language.grammar.classifyChain
      ⟨source, (call extent name arguments : Chained language true).tree.inRole role, above⟩ =
        .freeCall ⟨source, (Tree.branch "identifier" name []).inRole (some "function"), above₁⟩
          (some ⟨source, arguments.inRole (some "arguments"), above₂⟩) := by
  cases language with
  | rust => exact ⟨_, _, (Rust.calleeStep_identifier rfl _).trans rfl⟩
  | _ => exact ⟨_, _, rfl⟩

theorem classifyChain_method (extent callee : Extent) (base : Chained language computed)
    (dot name arguments : Tree) :
    ∃ above₁ above₂ above₃, language.grammar.classifyChain
      ⟨source, (method extent callee base dot name arguments).tree.inRole role, above⟩ =
        .methodCall ⟨source, name.inRole (some language.spelling.member), above₁⟩
          (some ⟨source, arguments.inRole (some "arguments"), above₂⟩)
          ⟨source, base.tree.inRole (some language.spelling.base), above₃⟩ := by
  cases language with
  | rust => exact ⟨_, _, _, (Rust.calleeStep_field rfl _).trans rfl⟩
  | _ => exact ⟨_, _, _, rfl⟩

theorem classifyChain_field (extent : Extent) (base : Chained language computed)
    (dot name : Tree) :
    ∃ above₁ above₂, language.grammar.classifyChain
      ⟨source, (field extent base dot name).tree.inRole role, above⟩ =
        .field ⟨source, name.inRole (some language.spelling.member), above₁⟩
          ⟨source, base.tree.inRole (some language.spelling.base), above₂⟩ := by
  cases language with
  | _ => exact ⟨_, _, rfl⟩

theorem classifyChain_invoke (extent : Extent) (callee : Chained language true)
    (arguments : Tree) :
    ∃ above₁ above₂, language.grammar.classifyChain
      ⟨source, (invoke extent callee arguments).tree.inRole role, above⟩ =
        .invoke ⟨source, callee.tree.inRole (some "function"), above₁⟩
          (some ⟨source, arguments.inRole (some "arguments"), above₂⟩) := by
  have hkind := kind_tree_of_computed callee
  cases language with
  | rust =>
    refine ⟨_, _, Rust.calleeStep_computed ?_ _⟩
    exact hkind
  | typescript =>
    refine ⟨_, _, TypeScript.calleeStep_computed ?_ _⟩
    exact hkind
  | javascript =>
    refine ⟨_, _, TypeScript.calleeStep_computed ?_ _⟩
    exact hkind
  | python =>
    refine ⟨_, _, Python.calleeStep_computed ?_ _⟩
    exact hkind

theorem firstNamedChild?_of_first {n : Node} (e : Chained language computed) {ts : List Tree}
    (h : n.tree.children = e.tree.inRole none :: ts) :
    ∃ above, n.firstNamedChild? = some ⟨n.source, e.tree.inRole none, above⟩ := by
  rw [Node.firstNamedChild?, Node.namedChildren, Node.children, h, Node.place, List.filter_cons]
  simp only [Node.isNamed, Node.label, Tree.inRole, Tree.label_node, isNamed_tree]
  exact ⟨_, rfl⟩

theorem firstNamedChild?_of_second {n : Node} (e : Chained language computed) {text : String}
    {extent : Extent} {ts : List Tree}
    (h : n.tree.children = .token text extent :: e.tree.inRole none :: ts) :
    ∃ above, n.firstNamedChild? = some ⟨n.source, e.tree.inRole none, above⟩ := by
  rw [Node.firstNamedChild?, Node.namedChildren, Node.children, h, Node.place, Node.place,
    List.filter_cons, List.filter_cons]
  simp only [Node.isNamed, Node.label, Tree.inRole, Tree.label_node, isNamed_tree]
  exact ⟨_, rfl⟩

theorem classifyChain_await (extent dot mark : Extent) (operand : Chained language computed) :
    ∃ above₁, language.grammar.classifyChain
      ⟨source, (await extent dot mark operand).tree.inRole role, above⟩ =
        .suspend "await" ⟨source, operand.tree.inRole none, above₁⟩ := by
  cases language with
  | rust =>
    obtain ⟨above₁, h⟩ := firstNamedChild?_of_first
      (n := ⟨source, (await extent dot mark operand).tree.inRole role, above⟩) operand rfl
    exact ⟨above₁, congrArg (ChainStep.ofOperand "await") h⟩
  | _ =>
    obtain ⟨above₁, h⟩ := firstNamedChild?_of_second
      (n := ⟨source, (await extent dot mark operand).tree.inRole role, above⟩) operand rfl
    exact ⟨above₁, congrArg (ChainStep.ofOperand "await") h⟩

theorem classifyChain_propagate (rust : language = .rust) (extent mark : Extent)
    (operand : Chained language computed) :
    ∃ above₁, language.grammar.classifyChain
      ⟨source, (propagate rust extent mark operand).tree.inRole role, above⟩ =
        .suspend "?" ⟨source, operand.tree.inRole none, above₁⟩ := by
  obtain ⟨above₁, h⟩ := firstNamedChild?_of_first
    (n := ⟨source, (propagate rust extent mark operand).tree.inRole role, above⟩) operand rfl
  subst rust
  exact ⟨above₁, congrArg (ChainStep.ofOperand "?") h⟩

theorem classifyChain_index (extent : Extent) (base : Chained language computed)
    (brackets : List Tree) :
    ∃ above₁, language.grammar.classifyChain
      ⟨source, (index extent base brackets).tree.inRole role, above⟩ =
        .transparent ⟨source, base.tree.inRole language.spelling.indexed, above₁⟩ := by
  cases language with
  | rust =>
    obtain ⟨above₁, h⟩ := firstNamedChild?_of_first
      (n := ⟨source, (index extent base brackets).tree.inRole role, above⟩) base rfl
    exact ⟨above₁, congrArg ChainStep.ofInner h⟩
  | _ => exact ⟨_, rfl⟩

theorem classifyChain_parentheses (extent opening closing : Extent)
    (inner : Chained language computed) :
    ∃ above₁, language.grammar.classifyChain
      ⟨source, (parentheses extent opening closing inner).tree.inRole role, above⟩ =
        .transparent ⟨source, inner.tree.inRole none, above₁⟩ := by
  obtain ⟨above₁, h⟩ := firstNamedChild?_of_second
    (n := ⟨source, (parentheses extent opening closing inner).tree.inRole role, above⟩) inner rfl
  cases language with
  | _ => exact ⟨above₁, congrArg ChainStep.ofInner h⟩

theorem childOfKind?_of_behind {n : Node} {mark : String} {t : Tree} {ts : List Tree}
    (h : n.tree.children = t :: ts) (ht : t.label.kind ≠ mark) :
    n.childOfKind? [mark] = (n.place [t] ts).find? ([mark].contains ·.kind) := by
  rw [Node.childOfKind?, Node.children, h, Node.place, List.find?_cons_of_neg]
  simpa [Node.kind, Node.label] using ht

theorem childOfKind?_await (extent dot mark : Extent) (operand : Chained language computed) :
    ((⟨source, (await extent dot mark operand).tree.inRole role, above⟩ :
      Node).childOfKind? ["await"]).map Node.start = some (source.position mark.start) := by
  cases language with
  | rust =>
    rw [childOfKind?_of_behind (t := operand.tree.inRole none) rfl (kind_tree_ne_mark operand).1]
    rfl
  | _ => rfl

theorem childOfKind?_propagate (rust : language = .rust) (extent mark : Extent)
    (operand : Chained language computed) :
    ((⟨source, (propagate rust extent mark operand).tree.inRole role, above⟩ :
      Node).childOfKind? ["?"]).map Node.start = some (source.position mark.start) := by
  subst rust
  rw [childOfKind?_of_behind (t := operand.tree.inRole none) rfl (kind_tree_ne_mark operand).2]
  rfl

end Classification

/--
The steps of the walk over an expression: one for each link and one for its beginning.
-/
def steps : {computed : Bool} → Chained language computed → Nat
  | _, identifier .. | _, call .. => 1
  | _, method _ _ e _ _ _ | _, field _ e _ _ | _, invoke _ e _ | _, await _ _ _ e
  | _, propagate _ _ _ e | _, index _ e _ | _, parentheses _ _ _ e => e.steps + 1

/--
The text of the identifier at the beginning, if there is one.
-/
def receiver (source : Source) : {computed : Bool} → Chained language computed → String
  | _, identifier extent => source.slice extent.start extent.stop
  | _, call .. => ""
  | _, method _ _ e _ _ _ | _, field _ e _ _ | _, invoke _ e _ | _, await _ _ _ e
  | _, propagate _ _ _ e | _, index _ e _ | _, parentheses _ _ _ e => e.receiver source

/--
The arguments that a list holds by itself, each of them normalized on its own.
-/
def argumentsOf (language : Language) (scope : Scope) (source : Source) (list : Tree) :
    List Argument :=
  (language.grammar.argumentNodes (.root source (list.inRole (some "arguments")))).map fun n =>
    ((Extract.argument language.grammar scope n).run {}).1

/--
The segments of an expression from left to right. A suspension mark comes after its operand, and
indices and parentheses leave none.
-/
def segments (scope : Scope) (source : Source) :
    {computed : Bool} → Chained language computed → List Segment
  | _, identifier _ => []
  | _, call _ name arguments =>
    [.call (source.slice name.start name.stop) (argumentsOf language scope source arguments)
      (source.position name.start)]
  | _, method _ _ base _ name arguments =>
    base.segments scope source ++ [.call (source.slice name.label.start name.label.stop)
      (argumentsOf language scope source arguments) (source.position name.label.start)]
  | _, field _ base _ name =>
    base.segments scope source ++ [.access (source.slice name.label.start name.label.stop)
      (source.position name.label.start)]
  | _, invoke _ callee arguments =>
    callee.segments scope source ++ [.call "()" (argumentsOf language scope source arguments)
      (source.position arguments.label.start)]
  | _, await _ _ mark operand =>
    operand.segments scope source ++ [.access "await" (source.position mark.start)]
  | _, propagate _ _ mark operand =>
    operand.segments scope source ++ [.access "?" (source.position mark.start)]
  | _, index _ base _ => base.segments scope source
  | _, parentheses _ _ _ inner => inner.segments scope source

section Walk

open Extract CountM

variable {g : Grammar} {scope : Scope} {n m : Node}

/--
The walk from `n` takes the given number of steps, and adds the given segments to those after it.
-/
def Walks (g : Grammar) (scope : Scope) (n : Node) (steps : Nat) (receiver : String)
    (segments : List Segment) : Prop :=
  ∀ limit rest, (walkChain g scope limit n rest).value =
    if steps ≤ limit then some (receiver, segments ++ rest) else none

theorem walks_of_end (scope : Scope) (hnext : (g.classifyChain n).next? = none) :
    Walks g scope n 1 ((((g.classifyChain n).receiver? n).map Node.text).getD "")
      (segmentAt g scope n).value.toList := by
  intro limit rest
  cases limit with
  | zero => rfl
  | succ limit =>
    rw [value_walkChain_of_end scope limit rest hnext]
    simp

theorem Walks.of_next {steps : Nat} {receiver : String} {segments : List Segment}
    (h : Walks g scope m steps receiver segments) (hnext : (g.classifyChain n).next? = some m) :
    Walks g scope n (steps + 1) receiver (segments ++ (segmentAt g scope n).value.toList) := by
  intro limit rest
  cases limit with
  | zero => rfl
  | succ limit =>
    rw [value_walkChain_of_next scope limit rest hnext, h limit]
    simp only [Nat.add_le_add_iff_right, List.append_assoc]

theorem value_callArguments_list (scope : Scope) (source : Source) (list : Tree)
    (above : List Frame) :
    (callArguments language.grammar scope
      (some ⟨source, list.inRole (some "arguments"), above⟩)).value =
        argumentsOf language scope source list := by
  -- The list is the same list at the root of a tree, put below the frames of the expression.
  change (arguments language.grammar scope
    ((Node.root source (list.inRole (some "arguments"))).graft above)).value = _
  rw [arguments_graft]
  exact value_mapM (additive_argumentAt language.grammar _) _

theorem walks_tree (e : Chained language computed) (scope : Scope) (source : Source)
    (role : Option String) (above : List Frame) :
    Walks language.grammar scope ⟨source, e.tree.inRole role, above⟩ e.steps (e.receiver source)
      (e.segments scope source) := by
  -- The frames above are left open, since the base of a link stands below the link.
  induction e generalizing role above with
  | identifier extent =>
    have hstep := classifyChain_identifier source role above language extent
    have h := walks_of_end scope (congrArg ChainStep.next? hstep)
    rw [segmentAt, hstep] at h
    exact h
  | call extent name arguments =>
    obtain ⟨above₁, above₂, hstep⟩ :=
      classifyChain_call source role above language extent name arguments
    have h := walks_of_end scope (congrArg ChainStep.next? hstep)
    rw [segmentAt, hstep, stepSegment, value_bind_pure (additive_callArguments _ _ _),
      value_callArguments_list] at h
    exact h
  | method extent callee base dot name arguments ih =>
    obtain ⟨above₁, above₂, above₃, hstep⟩ :=
      classifyChain_method source role above extent callee base dot name arguments
    have h := (ih _ _).of_next (congrArg ChainStep.next? hstep)
    rw [segmentAt, hstep, stepSegment, value_bind_pure (additive_callArguments _ _ _),
      value_callArguments_list] at h
    exact h
  | field extent base dot name ih =>
    obtain ⟨above₁, above₂, hstep⟩ := classifyChain_field source role above extent base dot name
    have h := (ih _ _).of_next (congrArg ChainStep.next? hstep)
    rw [segmentAt, hstep] at h
    exact h
  | invoke extent callee arguments ih =>
    obtain ⟨above₁, above₂, hstep⟩ :=
      classifyChain_invoke source role above extent callee arguments
    have h := (ih _ _).of_next (congrArg ChainStep.next? hstep)
    rw [segmentAt, hstep, stepSegment, value_bind_pure (additive_callArguments _ _ _),
      value_callArguments_list] at h
    exact h
  | await extent dot mark operand ih =>
    obtain ⟨above₁, hstep⟩ := classifyChain_await source role above extent dot mark operand
    have h := (ih _ _).of_next (congrArg ChainStep.next? hstep)
    rw [segmentAt, hstep, stepSegment, value_pure, childOfKind?_await] at h
    exact h
  | propagate rust extent mark operand ih =>
    obtain ⟨above₁, hstep⟩ := classifyChain_propagate source role above rust extent mark operand
    have h := (ih _ _).of_next (congrArg ChainStep.next? hstep)
    rw [segmentAt, hstep, stepSegment, value_pure, childOfKind?_propagate] at h
    exact h
  | index extent base brackets ih =>
    obtain ⟨above₁, hstep⟩ := classifyChain_index source role above extent base brackets
    have h := (ih _ _).of_next (congrArg ChainStep.next? hstep)
    rw [segmentAt, hstep, stepSegment, value_pure, Option.toList_none, List.append_nil] at h
    exact h
  | parentheses extent opening closing inner ih =>
    obtain ⟨above₁, hstep⟩ :=
      classifyChain_parentheses source role above extent opening closing inner
    have h := (ih _ _).of_next (congrArg ChainStep.next? hstep)
    rw [segmentAt, hstep, stepSegment, value_pure, Option.toList_none, List.append_nil] at h
    exact h

/--
The chain of an expression has its links in written order, each with its own arguments. There is no
chain if the expression leaves no segment, or if the walk over it takes more steps than allowed.
-/
theorem callChain_recovers_written_order (e : Chained language computed) (scope : Scope)
    (source : Source) (role : Option String) (above : List Frame) (f : Fallbacks) :
    let n : Node := ⟨source, e.tree.inRole role, above⟩
    let found := ((callChain language.grammar scope n).run f).1
    (e.steps ≤ scope.limits.maxChainDepth → e.segments scope source ≠ [] →
      found = some
        { receiver := e.receiver source, segments := e.segments scope source, raw := n.text,
          file := scope.file, start := n.start, stop := n.stop }) ∧
    (e.segments scope source = [] → found = none) ∧
    (scope.limits.maxChainDepth < e.steps → found = none) := by
  intro n found
  have hfound : found = if e.steps ≤ scope.limits.maxChainDepth then
      chainOf? scope n (e.receiver source) (e.segments scope source) else none := by
    have hwalk := walks_tree e scope source role above scope.limits.maxChainDepth []
    simp only [found, additive_callChain language.grammar scope n f]
    rw [callChain_eq, value_bind_pure (additive_walkChain language.grammar scope _ n []), hwalk,
      List.append_nil]
    split
    · rfl
    · rfl
  refine ⟨?_, ?_, ?_⟩
  · intro hsteps hsegments
    rw [hfound, if_pos hsteps]
    cases hs : e.segments scope source with
    | nil => exact absurd hs hsegments
    | cons segment segments => rfl
  · intro hsegments
    rw [hfound, hsegments]
    split
    · rfl
    · rfl
  · intro hsteps
    rw [hfound, if_neg (Nat.not_le_of_lt hsteps)]

/--
The expression `(await a.b(1))(2)`.
-/
def awaitedCall : Chained .typescript true :=
  .invoke ⟨0, 17, false⟩
    (.parentheses ⟨0, 14, false⟩ ⟨0, 1, false⟩ ⟨13, 14, false⟩
      (.await ⟨1, 13, false⟩ ⟨1, 1, false⟩ ⟨1, 6, false⟩
        (.method ⟨7, 13, false⟩ ⟨7, 10, false⟩ (.identifier ⟨7, 8, false⟩)
          (.token "." ⟨8, 9, false⟩) (.branch "property_identifier" ⟨9, 10, false⟩ [])
          (.branch "arguments" ⟨10, 13, false⟩ [.token "(" ⟨10, 11, false⟩,
            .branch "number" ⟨11, 12, false⟩ [], .token ")" ⟨12, 13, false⟩]))))
    (.branch "arguments" ⟨14, 17, false⟩ [.token "(" ⟨14, 15, false⟩,
      .branch "number" ⟨15, 16, false⟩ [], .token ")" ⟨16, 17, false⟩])

theorem awaitedCall_recovers_written_order :
    let source := Source.ofString "(await a.b(1))(2)"
    let scope : Scope := ⟨"a.ts", { maxChainDepth := 5 }⟩
    let n : Node := ⟨source, awaitedCall.tree.inRole none, []⟩
    awaitedCall.steps ≤ scope.limits.maxChainDepth ∧ awaitedCall.segments scope source ≠ [] ∧
    ∃ chain, ((callChain TypeScript.grammar scope n).run {}).1 = some chain ∧
      chain.receiver = "a" ∧ chain.raw = "(await a.b(1))(2)" ∧
      chain.segments.map (fun s => (s.name, s.isCall, s.arguments.map (·.text))) =
        [("b", true, ["1"]), ("await", false, []), ("()", true, ["2"])] := by
  intro source scope n
  have hsegments : awaitedCall.segments scope source ≠ [] := by
    simp [awaitedCall, segments]
  exact ⟨by decide, hsegments, _,
    (callChain_recovers_written_order awaitedCall scope source none [] {}).1 (by decide) hsegments,
    by decide +kernel, by decide +kernel, by decide +kernel⟩

/--
A lone identifier has no segment and hence no chain.
-/
theorem identifier_has_no_chain :
    let e : Chained .python false := .identifier ⟨0, 1, false⟩
    let scope : Scope := ⟨"a.py", {}⟩
    e.steps ≤ scope.limits.maxChainDepth ∧
    ¬ ∃ chain, ((callChain Python.grammar scope
      (.root (.ofString "x") (e.tree.inRole none))).run {}).1 = some chain := by
  refine ⟨by decide, ?_⟩
  rintro ⟨chain, h⟩
  cases h

end Walk

end Chained

end Polyglot
