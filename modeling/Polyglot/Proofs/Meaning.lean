import Mathlib.Data.List.Forall2
import Polyglot.Proofs.Chains.Walk

/-!
This module contains what arguments and chains mean apart from positions and source texts, and the
principle that two nodes have the same meaning if their grammar looks at them in the same way, now
and further on.
-/

namespace Polyglot

mutual

/--
An argument without positions and texts.
-/
def ArgumentKind.meaning : ArgumentKind → ArgumentKind
  | .object properties => .object (ArgumentKind.meanProperties properties)
  | .array elements => .array (ArgumentKind.meanElements elements)
  | kind => kind

def ArgumentKind.meanProperties : List (String × Argument) → List (String × Argument)
  | [] => []
  | (key, ⟨kind, _, _⟩) :: rest => (key, ⟨kind.meaning, default, ""⟩) :: meanProperties rest

def ArgumentKind.meanElements : List Argument → List Argument
  | [] => []
  | ⟨kind, _, _⟩ :: rest => ⟨kind.meaning, default, ""⟩ :: meanElements rest

end

def Located.meaning (a : Argument) : Argument := ⟨a.kind.meaning, default, ""⟩

theorem ArgumentKind.meanProperties_eq (properties : List (String × Argument)) :
    meanProperties properties = properties.map fun p => (p.1, p.2.meaning) := by
  induction properties with
  | nil => rw [meanProperties, List.map_nil]
  | cons p rest ih => rw [meanProperties, List.map_cons, ih, Located.meaning]

theorem ArgumentKind.meanElements_eq (elements : List Argument) :
    meanElements elements = elements.map Located.meaning := by
  induction elements with
  | nil => rw [meanElements, List.map_nil]
  | cons a rest ih => rw [meanElements, List.map_cons, ih, Located.meaning]

/--
What a segment says: its name, whether it is a call, and its arguments.
-/
def Segment.meaning (s : Segment) : String × Bool × List ArgumentKind :=
  (s.name, s.isCall, s.arguments.map (·.kind.meaning))

section Relations

variable (R : Node → Node → Prop)

/--
Entries of objects with the same keys and with related values.
-/
inductive ObjectEntry.Rel : ObjectEntry → ObjectEntry → Prop where
  | pair {key : String} {v w : Node} : R v w → Rel (.pair key v) (.pair key w)
  | shorthand {name : String} {n m : Node} : Rel (.shorthand name n) (.shorthand name m)
  | unclassified {n m : Node} : n.text = m.text → Rel (.unclassified n) (.unclassified m)

inductive ArgShape.Rel : ArgShape → ArgShape → Prop where
  | string {value : String} : Rel (.string value) (.string value)
  | number {literal : String} : Rel (.number literal) (.number literal)
  | boolean {value : Bool} : Rel (.boolean value) (.boolean value)
  | null : Rel .null .null
  | identifier {name : String} : Rel (.identifier name) (.identifier name)
  | object {es fs : List ObjectEntry} : List.Forall₂ (ObjectEntry.Rel R) es fs →
      Rel (.object es) (.object fs)
  | array {ns ms : List Node} : List.Forall₂ R ns ms → Rel (.array ns) (.array ms)
  | keyword {name : String} {v w : Node} : R v w → Rel (.keyword name v) (.keyword name w)
  | wrapped {n m : Node} : R n m → Rel (.wrapped n) (.wrapped m)
  | unclassified : Rel .unclassified .unclassified

inductive ChainStep.Rel : ChainStep → ChainStep → Prop where
  | methodCall {a b n m : Node} {ns ms : Option Node} : a.text = b.text → Option.Rel R ns ms →
      R n m → Rel (.methodCall a ns n) (.methodCall b ms m)
  | freeCall {a b : Node} {ns ms : Option Node} : a.text = b.text → Option.Rel R ns ms →
      Rel (.freeCall a ns) (.freeCall b ms)
  | pathCall {a b : Node} {ps qs ns ms : Option Node} : Option.Rel R ps qs → a.text = b.text →
      Option.Rel R ns ms → Rel (.pathCall ps a ns) (.pathCall qs b ms)
  | macroCall {a b : Node} {ps qs : Option Node} : Option.Rel R ps qs → a.text = b.text →
      Rel (.macroCall ps a) (.macroCall qs b)
  | invoke {n m : Node} {ns ms : Option Node} : R n m → Option.Rel R ns ms →
      Rel (.invoke n ns) (.invoke m ms)
  | field {a b n m : Node} : a.text = b.text → R n m → Rel (.field a n) (.field b m)
  | suspend {mark : String} {n m : Node} : R n m → Rel (.suspend mark n) (.suspend mark m)
  | transparent {n m : Node} : R n m → Rel (.transparent n) (.transparent m)
  | terminal : Rel .terminal .terminal
  | unclassified : Rel .unclassified .unclassified

/--
A grammar looks at related nodes in the same way and finds related nodes there.
-/
structure Grammar.Mirrors (g : Grammar) : Prop where
  chain {n m : Node} : R n m → ChainStep.Rel R (g.classifyChain n) (g.classifyChain m)
  argument {n m : Node} : R n m → ArgShape.Rel R (g.classifyArg n) (g.classifyArg m)
  list {n m : Node} : R n m → List.Forall₂ R (g.argumentNodes n) (g.argumentNodes m)

end Relations

section Constructors

variable {R : Node → Node → Prop} {n m : Node} {ns ms as bs : Option Node}

theorem ArgShape.rel_ofInner (h : Option.Rel R ns ms) :
    ArgShape.Rel R (.ofInner ns) (.ofInner ms) := by
  cases h with
  | some h => exact .wrapped h
  | none => exact .unclassified

namespace ChainStep

theorem rel_ofInner (h : Option.Rel R ns ms) : ChainStep.Rel R (.ofInner ns) (.ofInner ms) := by
  cases h with
  | some h => exact .transparent h
  | none => exact .unclassified

theorem rel_ofOperand (mark : String) (h : Option.Rel R ns ms) :
    ChainStep.Rel R (.ofOperand mark ns) (.ofOperand mark ms) := by
  cases h with
  | some h => exact .suspend h
  | none => exact .unclassified

theorem rel_ofField (hname : Option.Rel (fun a b => a.text = b.text) as bs)
    (hbase : Option.Rel R ns ms) : ChainStep.Rel R (.ofField as ns) (.ofField bs ms) := by
  cases hname with
  | none => exact .unclassified
  | some hname =>
    cases hbase with
    | none => exact .unclassified
    | some hbase => exact .field hname hbase

theorem rel_ofMethod {ls ks : Option Node} (hcallee : R n m) (hlist : Option.Rel R ls ks)
    (hname : Option.Rel (fun a b => a.text = b.text) as bs) (hbase : Option.Rel R ns ms) :
    ChainStep.Rel R (.ofMethod n ls as ns) (.ofMethod m ks bs ms) := by
  cases hname with
  | none => exact .invoke hcallee hlist
  | some hname =>
    cases hbase with
    | none => exact .invoke hcallee hlist
    | some hbase => exact .methodCall hname hlist hbase

end ChainStep

end Constructors

theorem map_insertProperty (f : α → β) (key : String) (value : α) (ps : List (String × α)) :
    (insertProperty key value ps).map (fun p => (p.1, f p.2)) =
      insertProperty key (f value) (ps.map fun p => (p.1, f p.2)) := by
  induction ps with
  | nil => rfl
  | cons p rest ih =>
    simp only [insertProperty, List.map_cons]
    split
    · rfl
    · split
      · rfl
      · rw [List.map_cons, ih]

namespace Extract

open CountM

variable {g : Grammar} {R : Node → Node → Prop}

section Inner

variable {inner : Node → CountM Argument} (hadd : ∀ n, (inner n).Additive)
  (hinner : ∀ {n m}, R n m → (inner n).value.meaning = (inner m).value.meaning)

include hadd hinner

theorem meaning_property {e f : ObjectEntry} (h : ObjectEntry.Rel R e f) :
    (property inner e).value.1 = (property inner f).value.1 ∧
      (property inner e).value.2.meaning = (property inner f).value.2.meaning := by
  cases h with
  | @pair key v w h =>
    have hvalue : ∀ v, (property inner (.pair key v)).value = (key, (inner v).value) :=
      fun v => value_bind_pure (hadd v) _
    rw [hvalue, hvalue]
    exact ⟨rfl, hinner h⟩
  | shorthand => exact ⟨rfl, rfl⟩
  | unclassified h => exact ⟨h, rfl⟩

theorem meaning_properties {es fs : List ObjectEntry}
    (h : List.Forall₂ (ObjectEntry.Rel R) es fs) {ps qs : List (String × Argument)}
    (hps : ps.map (fun p => (p.1, p.2.meaning)) = qs.map fun p => (p.1, p.2.meaning)) :
    (es.foldlM (addProperty inner) ps).value.map (fun p => (p.1, p.2.meaning)) =
      (fs.foldlM (addProperty inner) qs).value.map fun p => (p.1, p.2.meaning) := by
  have hadd' := additive_addProperty hadd
  rw [value_foldlM hadd', value_foldlM hadd']
  -- A property is put where its key belongs, so equal keys keep both objects in step.
  induction h generalizing ps qs with
  | nil => exact hps
  | @cons e f es fs hentry _ ih =>
    rw [List.foldl_cons, List.foldl_cons]
    apply ih
    obtain ⟨hkey, hvalue⟩ := meaning_property hadd hinner hentry
    have hstep : ∀ ps e, (addProperty inner ps e).value =
        insertProperty (property inner e).value.1 (property inner e).value.2 ps := by
      intro ps e
      exact value_bind_pure (additive_property hadd e) _
    rw [hstep, hstep, map_insertProperty, map_insertProperty, hkey, hvalue, hps]

theorem meaning_kindOfShape {s t : ArgShape} (h : ArgShape.Rel R s t) :
    (kindOfShape inner s).value.meaning = (kindOfShape inner t).value.meaning := by
  cases h with
  | object h =>
    have hvalue : ∀ es, (kindOfShape inner (.object es)).value =
        .object (es.foldlM (addProperty inner) []).value :=
      fun es => value_bind_pure (additive_foldlM (additive_addProperty hadd) [] es) _
    rw [hvalue, hvalue, ArgumentKind.meaning, ArgumentKind.meaning,
      ArgumentKind.meanProperties_eq, ArgumentKind.meanProperties_eq,
      meaning_properties hadd hinner h rfl]
  | array h =>
    have hvalue : ∀ ns, (kindOfShape inner (.array ns)).value =
        .array (ns.map fun n => (inner n).value) := by
      intro ns
      rw [← value_mapM hadd]
      exact value_bind_pure (additive_mapM hadd ns) _
    rw [hvalue, hvalue, ArgumentKind.meaning, ArgumentKind.meaning,
      ArgumentKind.meanElements_eq, ArgumentKind.meanElements_eq, List.map_map, List.map_map]
    congr 1
    induction h with
    | nil => rfl
    | cons h _ ih => rw [List.map_cons, List.map_cons, Function.comp, Function.comp, hinner h, ih]
  | @keyword name v w h =>
    have hvalue : ∀ v, (kindOfShape inner (.keyword name v)).value =
        .object [(name, (inner v).value)] :=
      fun v => value_bind_pure (hadd v) _
    rw [hvalue, hvalue, ArgumentKind.meaning, ArgumentKind.meaning,
      ArgumentKind.meanProperties_eq, ArgumentKind.meanProperties_eq, List.map_singleton,
      List.map_singleton, hinner h]
  | @wrapped n m h =>
    have hvalue : ∀ n, (kindOfShape inner (.wrapped n)).value = (inner n).value.kind :=
      fun n => value_bind_pure (hadd n) _
    rw [hvalue, hvalue]
    exact congrArg Located.kind (hinner h)
  | _ => rfl

end Inner

theorem meaning_argumentAt (hg : g.Mirrors R) (levels : Nat) {n m : Node} (h : R n m) :
    (argumentAt g levels n).value.meaning = (argumentAt g levels m).value.meaning := by
  induction levels generalizing n m with
  | zero => rfl
  | succ levels ih =>
    have hadd := additive_argumentAt g levels
    have hkind := meaning_kindOfShape hadd ih (hg.argument h)
    rw [argumentAt_succ, argumentAt_succ, value_bind_pure (additive_kindOfShape hadd _),
      value_bind_pure (additive_kindOfShape hadd _)]
    simp only [Located.meaning, Node.toArgument, hkind]

theorem meaning_arguments (hg : g.Mirrors R) (scope : Scope) {n m : Node} (h : R n m) :
    (arguments g scope n).value.map (·.kind.meaning) =
      (arguments g scope m).value.map (·.kind.meaning) := by
  have hadd := additive_argumentAt g (scope.limits.maxArgDepth + 1)
  have hlist := hg.list h
  unfold arguments argument
  rw [value_mapM hadd, value_mapM hadd, List.map_map, List.map_map]
  generalize g.argumentNodes n = ns, g.argumentNodes m = ms at hlist
  induction hlist with
  | nil => rfl
  | cons h _ ih =>
    have hkind := congrArg Located.kind (meaning_argumentAt hg (scope.limits.maxArgDepth + 1) h)
    rw [List.map_cons, List.map_cons, ih]
    congr 1

theorem meaning_callArguments (hg : g.Mirrors R) (scope : Scope) {ns ms : Option Node}
    (h : Option.Rel R ns ms) :
    (callArguments g scope ns).value.map (·.kind.meaning) =
      (callArguments g scope ms).value.map (·.kind.meaning) := by
  cases h with
  | none => rfl
  | some h => exact meaning_arguments hg scope h

theorem meaning_call {name name' : String} {position position' : Position}
    {as bs : List Argument} (hname : name = name')
    (h : as.map (·.kind.meaning) = bs.map (·.kind.meaning)) :
    (Segment.call name as position).meaning = (Segment.call name' bs position').meaning := by
  simp only [Segment.meaning, Segment.call, hname, h]

theorem meaning_segmentAt (hg : g.Mirrors R) (scope : Scope) {n m : Node} (h : R n m) :
    (segmentAt g scope n).value.map Segment.meaning =
      (segmentAt g scope m).value.map Segment.meaning := by
  have hadd := additive_callArguments g scope
  have hstep := hg.chain h
  unfold segmentAt
  generalize g.classifyChain n = step, g.classifyChain m = step' at hstep
  cases hstep with
  | methodCall hname hlist _ =>
    rw [stepSegment, stepSegment, value_bind_pure (hadd _), value_bind_pure (hadd _)]
    exact congrArg some (meaning_call hname (meaning_callArguments hg scope hlist))
  | freeCall hname hlist =>
    rw [stepSegment, stepSegment, value_bind_pure (hadd _), value_bind_pure (hadd _)]
    exact congrArg some (meaning_call hname (meaning_callArguments hg scope hlist))
  | pathCall _ hname hlist =>
    rw [stepSegment, stepSegment, value_bind_pure (hadd _), value_bind_pure (hadd _)]
    exact congrArg some (meaning_call hname (meaning_callArguments hg scope hlist))
  | macroCall _ hname =>
    rw [stepSegment, stepSegment, hname]
    rfl
  | invoke _ hlist =>
    rw [stepSegment, stepSegment, value_bind_pure (hadd _), value_bind_pure (hadd _)]
    exact congrArg some (meaning_call rfl (meaning_callArguments hg scope hlist))
  | field hname _ =>
    rw [stepSegment, stepSegment, hname]
    rfl
  | _ => rfl

theorem rel_next {step step' : ChainStep} (h : ChainStep.Rel R step step') :
    Option.Rel R step.next? step'.next? := by
  cases h with
  | methodCall _ _ h => exact .some h
  | invoke h _ => exact .some h
  | field _ h => exact .some h
  | suspend h => exact .some h
  | transparent h => exact .some h
  | _ => exact .none

theorem rel_receiver {n m : Node} {step step' : ChainStep} (hnm : R n m)
    (h : ChainStep.Rel R step step') : Option.Rel R (step.receiver? n) (step'.receiver? m) := by
  cases h with
  | pathCall h _ _ => exact h
  | macroCall h _ => exact h
  | terminal => exact .some hnm
  | unclassified => exact .some hnm
  | _ => exact .none

theorem rel_cursors (hg : g.Mirrors R) (steps : Nat) {n m : Node} (h : R n m) :
    Option.Rel (List.Forall₂ R) (cursors g steps n) (cursors g steps m) := by
  induction steps generalizing n m with
  | zero => exact .none
  | succ steps ih =>
    have hnext := rel_next (hg.chain h)
    rw [cursors, cursors]
    generalize (g.classifyChain n).next? = next, (g.classifyChain m).next? = next' at hnext
    cases hnext with
    | none => exact .some (.cons h .nil)
    | @some k l hkl =>
      have hrest := ih hkl
      change Option.Rel _ ((cursors g steps k).map (n :: ·)) ((cursors g steps l).map (m :: ·))
      generalize cursors g steps k = cs, cursors g steps l = ds at hrest
      cases hrest with
      | none => exact .none
      | some hrest => exact .some (.cons h hrest)

theorem rel_receiverNode (hg : g.Mirrors R) (steps : Nat) {n m : Node} (h : R n m) :
    Option.Rel R (receiverNode? g steps n) (receiverNode? g steps m) := by
  induction steps generalizing n m with
  | zero => exact .none
  | succ steps ih =>
    have hnext := rel_next (hg.chain h)
    have hreceiver := rel_receiver h (hg.chain h)
    rw [receiverNode?, receiverNode?]
    generalize (g.classifyChain n).next? = next, (g.classifyChain m).next? = next' at hnext
    cases hnext with
    | none => exact hreceiver
    | some hkl => exact ih hkl

theorem meaning_segmentsOf (hg : g.Mirrors R) (scope : Scope) {cs ds : List Node}
    (h : List.Forall₂ R cs ds) :
    (segmentsOf g scope cs).map Segment.meaning = (segmentsOf g scope ds).map Segment.meaning := by
  induction h with
  | nil => rfl
  | cons h _ ih =>
    have hsegment := congrArg Option.toList (meaning_segmentAt hg scope h)
    rw [Option.toList_map, Option.toList_map] at hsegment
    rw [segmentsOf_cons, segmentsOf_cons, List.map_append, List.map_append, ih, hsegment]

theorem meaning_callChain (hg : g.Mirrors R) (scope : Scope) {n m : Node} (h : R n m) :
    (callChain g scope n).value.map (·.segments.map Segment.meaning) =
      (callChain g scope m).value.map (·.segments.map Segment.meaning) := by
  have hchain : ∀ n receiver segments,
      (chainOf? scope n receiver segments).map (·.segments.map Segment.meaning) =
        if segments.map Segment.meaning = [] then none
        else some (segments.map Segment.meaning) := by
    intro n receiver segments
    cases segments with
    | nil => rfl
    | cons s rest => rfl
  have hcursors := rel_cursors hg scope.limits.maxChainDepth h
  rw [value_callChain, value_callChain]
  generalize cursors g scope.limits.maxChainDepth n = cs,
    cursors g scope.limits.maxChainDepth m = ds at hcursors
  cases hcursors with
  | none => rfl
  | some hcursors =>
    rw [Option.bind_some, Option.bind_some, hchain, hchain, meaning_segmentsOf hg scope hcursors]

end Extract

end Polyglot
