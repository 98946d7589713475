import Polyglot.Extract.Facts
import Polyglot.Proofs.Comments.Python
import Polyglot.Proofs.Comments.Rust
import Polyglot.Proofs.Comments.TypeScript

/-!
This module contains the theorem that comments do not change the meaning of arguments and chains.
-/

namespace Polyglot

def Language.commentRules : Language → CommentRules
  | rust => Rust.commentRules
  | typescript | javascript => TypeScript.commentRules
  | python => Python.commentRules

theorem Language.mirrors_commented (language : Language) :
    language.grammar.Mirrors (Commented language.commentRules) := by
  cases language with
  | rust => exact Rust.mirrors_commented
  | typescript => exact TypeScript.mirrors_commented
  | javascript => exact TypeScript.mirrors_commented
  | python => exact Python.mirrors_commented

/--
The keys of an object.
-/
def ArgumentKind.keys : ArgumentKind → List String
  | object properties => properties.map (·.1)
  | _ => []

namespace Extract

open CountM

theorem receiver_of_callChain {g : Grammar} {scope : Scope} {n : Node} {chain : CallChain}
    (h : (callChain g scope n).value = some chain) :
    chain.receiver = ((receiverNode? g scope.limits.maxChainDepth n).map Node.text).getD "" := by
  rw [value_callChain] at h
  obtain ⟨cs, -, h⟩ := Option.bind_eq_some_iff.1 h
  generalize segmentsOf g scope cs = segments at h
  cases segments with
  | nil => cases h
  | cons segment segments =>
    obtain rfl := Option.some.inj h
    rfl

/--
Comments that are added where there is room for them change neither the meaning of an argument nor
the segments of a chain, and the receiver of the chain is the same expression.
-/
theorem comments_keep_meaning (language : Language) (scope : Scope) {n m : Node}
    (h : Commented language.commentRules n m) (f f' : Fallbacks) :
    let g := language.grammar
    let steps := scope.limits.maxChainDepth
    ((argument g scope n).run f).1.kind.meaning = ((argument g scope m).run f').1.kind.meaning ∧
    ((callChain g scope n).run f).1.map (·.segments.map Segment.meaning) =
      ((callChain g scope m).run f').1.map (·.segments.map Segment.meaning) ∧
    Option.Rel (Commented language.commentRules) (receiverNode? g steps n)
      (receiverNode? g steps m) ∧
    (∀ k f chain, ((callChain g scope k).run f).1 = some chain →
      chain.receiver = ((receiverNode? g steps k).map Node.text).getD "") := by
  intro g steps
  have hg := language.mirrors_commented
  have hargument := meaning_argumentAt hg (scope.limits.maxArgDepth + 1) h
  refine ⟨?_, ?_, rel_receiverNode hg steps h, ?_⟩
  · rw [argument, argument, additive_argumentAt g _ n f, additive_argumentAt g _ m f']
    exact congrArg Located.kind hargument
  · rw [additive_callChain g scope n f, additive_callChain g scope m f']
    exact meaning_callChain hg scope h
  · intro k f chain hchain
    rw [additive_callChain g scope k f] at hchain
    exact receiver_of_callChain hchain

/--
The tree of `(a).b([1])`.
-/
def plainCall : Tree :=
  .node ⟨"call_expression", true, false, none, 0, 10⟩ [
    .node ⟨"member_expression", true, false, some "function", 0, 5⟩ [
      .node ⟨"parenthesized_expression", true, false, some "object", 0, 3⟩ [
        .node ⟨"(", false, false, none, 0, 1⟩ [],
        .node ⟨"identifier", true, false, none, 1, 2⟩ [],
        .node ⟨")", false, false, none, 2, 3⟩ []],
      .node ⟨".", false, false, none, 3, 4⟩ [],
      .node ⟨"property_identifier", true, false, some "property", 4, 5⟩ []],
    .node ⟨"arguments", true, false, some "arguments", 5, 10⟩ [
      .node ⟨"(", false, false, none, 5, 6⟩ [],
      .node ⟨"array", true, false, none, 6, 9⟩ [
        .node ⟨"[", false, false, none, 6, 7⟩ [],
        .node ⟨"number", true, false, none, 7, 8⟩ [],
        .node ⟨"]", false, false, none, 8, 9⟩ []],
      .node ⟨")", false, false, none, 9, 10⟩ []]]

/--
The tree of `(a /*c*/).b(/*d*/ [/*e*/ 1])`.
-/
def commentedCall : Tree :=
  .node ⟨"call_expression", true, false, none, 0, 28⟩ [
    .node ⟨"member_expression", true, false, some "function", 0, 11⟩ [
      .node ⟨"parenthesized_expression", true, false, some "object", 0, 9⟩ [
        .node ⟨"(", false, false, none, 0, 1⟩ [],
        .node ⟨"identifier", true, false, none, 1, 2⟩ [],
        .node ⟨"comment", true, false, none, 3, 8⟩ [],
        .node ⟨")", false, false, none, 8, 9⟩ []],
      .node ⟨".", false, false, none, 9, 10⟩ [],
      .node ⟨"property_identifier", true, false, some "property", 10, 11⟩ []],
    .node ⟨"arguments", true, false, some "arguments", 11, 28⟩ [
      .node ⟨"(", false, false, none, 11, 12⟩ [],
      .node ⟨"comment", true, false, none, 12, 17⟩ [],
      .node ⟨"array", true, false, none, 18, 27⟩ [
        .node ⟨"[", false, false, none, 18, 19⟩ [],
        .node ⟨"comment", true, false, none, 19, 24⟩ [],
        .node ⟨"number", true, false, none, 25, 26⟩ [],
        .node ⟨"]", false, false, none, 26, 27⟩ []],
      .node ⟨")", false, false, none, 27, 28⟩ []]]

theorem comments_keep_meaning_of_call :
    let n := Node.root (.ofString "(a).b([1])") plainCall
    let m := Node.root (.ofString "(a /*c*/).b(/*d*/ [/*e*/ 1])") commentedCall
    let scope : Scope := ⟨"a.ts", {}⟩
    Commented TypeScript.commentRules n m ∧
    ((callChain TypeScript.grammar scope n).run {}).1.map (·.signature) = some "b" ∧
    ((callChain TypeScript.grammar scope n).run {}).1.map (·.segments.map Segment.meaning) =
      ((callChain TypeScript.grammar scope m).run {}).1.map (·.segments.map Segment.meaning) := by
  intro n m scope
  have h : Commented TypeScript.commentRules n m :=
    commented_of_isCommented 5 (by decide +kernel)
  exact ⟨h, by decide +kernel, (comments_keep_meaning .typescript scope h {} {}).2.1⟩

/--
The tree of `{...[]}`.
-/
def plainSpread : Tree :=
  .node ⟨"object", true, false, none, 0, 7⟩ [
    .node ⟨"\x7b", false, false, none, 0, 1⟩ [],
    .node ⟨"spread_element", true, false, none, 1, 6⟩ [
      .node ⟨"...", false, false, none, 1, 4⟩ [],
      .node ⟨"array", true, false, none, 4, 6⟩ [
        .node ⟨"[", false, false, none, 4, 5⟩ [],
        .node ⟨"]", false, false, none, 5, 6⟩ []]],
    .node ⟨"\x7d", false, false, none, 6, 7⟩ []]

/--
The tree of `{...[/*c*/]}`.
-/
def commentedSpread : Tree :=
  .node ⟨"object", true, false, none, 0, 12⟩ [
    .node ⟨"\x7b", false, false, none, 0, 1⟩ [],
    .node ⟨"spread_element", true, false, none, 1, 11⟩ [
      .node ⟨"...", false, false, none, 1, 4⟩ [],
      .node ⟨"array", true, false, none, 4, 11⟩ [
        .node ⟨"[", false, false, none, 4, 5⟩ [],
        .node ⟨"comment", true, false, none, 5, 10⟩ [],
        .node ⟨"]", false, false, none, 10, 11⟩ []]],
    .node ⟨"\x7d", false, false, none, 11, 12⟩ []]

/--
An entry without a plain key is kept under its whole text, so that a comment inside it shows.
-/
theorem comment_in_spread_changes_key :
    let rules := { TypeScript.commentRules with verbatim := fun _ => false }
    let n := Node.root (.ofString "\x7b...[]\x7d") plainSpread
    let m := Node.root (.ofString "\x7b...[/*c*/]\x7d") commentedSpread
    let scope : Scope := ⟨"a.ts", {}⟩
    Commented rules n m ∧
    ((argument TypeScript.grammar scope n).run {}).1.kind.meaning ≠
      ((argument TypeScript.grammar scope m).run {}).1.kind.meaning := by
  intro rules n m scope
  refine ⟨commented_of_isCommented 5 (by decide +kernel), ?_⟩
  intro heq
  have hkeys := congrArg ArgumentKind.keys heq
  exact absurd hkeys (by decide +kernel)

end Extract

end Polyglot
