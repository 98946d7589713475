import Mathlib.Data.List.Nodup
import Polyglot.Project.Disk

/-!
This module contains where paths lead on a disk. A path that is continued leads on from where it led
before, so an entry that is found name by name is the one that its whole path names.
-/

namespace Polyglot

namespace Path

/--
A name that an entry of a directory can have.
-/
structure IsName (name : String) : Prop where
  ne_empty : name ≠ ""
  ne_current : name ≠ "."
  ne_parent : name ≠ ".."
  noSlash : '/' ∉ name.toList

theorem pieces.go_append (current before after : List Char) :
    go current (before ++ '/' :: after) = go current before ++ go [] after := by
  induction before generalizing current with
  | nil => rfl
  | cons c before ih =>
    simp only [List.cons_append, go]
    split
    case isTrue => rw [ih, List.cons_append]
    case isFalse => apply ih

theorem pieces.go_of_noSlash {current text : List Char} (h : '/' ∉ text) :
    go current text = [current.reverse ++ text] := by
  induction text generalizing current with
  | nil => rw [go, List.append_nil]
  | cons c text ih =>
    rw [List.mem_cons, not_or] at h
    rw [go, if_neg (by simpa using Ne.symm h.1), ih h.2]
    simp

theorem pieces.go_ne_nil (current text : List Char) : go current text ≠ [] := by
  fun_induction go current text with
  | case1 => apply List.cons_ne_nil
  | case2 => apply List.cons_ne_nil
  | case3 => assumption

theorem pieces.noSlash_go {current text part : List Char} (hcurrent : '/' ∉ current)
    (hpart : part ∈ go current text) : '/' ∉ part := by
  induction text generalizing current with
  | nil =>
    obtain rfl := List.mem_singleton.mp hpart
    rwa [List.mem_reverse]
  | cons c text ih =>
    rw [go] at hpart
    split at hpart
    case isTrue =>
      obtain rfl | hrest := List.mem_cons.mp hpart
      · rwa [List.mem_reverse]
      · apply ih List.not_mem_nil hrest
    case isFalse hc =>
      apply ih ?_ hpart
      rw [List.mem_cons, not_or]
      refine ⟨?_, hcurrent⟩
      intro h
      simp [← h] at hc

theorem noSlash_of_mem_pieces {path piece : String} (h : piece ∈ pieces path) :
    '/' ∉ piece.toList := by
  obtain ⟨part, hpart, rfl⟩ := List.mem_map.mp h
  rw [String.toList_ofList]
  apply pieces.noSlash_go List.not_mem_nil hpart

theorem pieces_of_isName {name : String} (h : IsName name) : pieces name = [name] := by
  unfold pieces
  rw [pieces.go_of_noSlash h.noSlash]
  simp

/--
The last piece of a joined path is the name, and the pieces before it are those of the path up to a
slash at its end.
-/
theorem pieces_join {path name : String} (hpath : path ≠ "") (hname : IsName name) :
    ∃ front, front ≠ [] ∧ pieces (join path name) = front ++ [name] ∧
      (pieces path = front ∨ pieces path = front ++ [""]) := by
  have hlast : (pieces.go [] name.toList).map String.ofList = [name] := pieces_of_isName hname
  unfold join
  split
  case isFalse =>
    refine ⟨pieces path, ?_, ?_, .inl rfl⟩
    · simpa [pieces] using pieces.go_ne_nil [] path.toList
    · have htext : (path ++ "/" ++ name).toList = path.toList ++ '/' :: name.toList := by
        simp
      unfold pieces
      rw [htext, pieces.go_append, List.map_append, hlast]
  case isTrue hslash =>
    obtain ⟨before, hbefore⟩ := List.getLast?_eq_some_iff.mp (hslash.resolve_left hpath)
    have htext : (path ++ name).toList = before ++ '/' :: name.toList := by
      simp [hbefore]
    refine ⟨(pieces.go [] before).map String.ofList, ?_, ?_, .inr ?_⟩
    · simpa using pieces.go_ne_nil [] before
    · unfold pieces
      rw [htext, pieces.go_append, List.map_append, hlast]
    · unfold pieces
      rw [hbefore, pieces.go_append, List.map_append]
      rfl

theorem join_ne_empty (path : String) {name : String} (hname : IsName name) :
    join path name ≠ "" := by
  have hempty := hname.ne_empty
  unfold join
  split
  case isTrue => simp [hempty]
  case isFalse => simp [hempty]

theorem isAbsolute_join {path : String} (hpath : path ≠ "") (name : String) :
    isAbsolute (join path name) = isAbsolute path := by
  have htext : path.toList ≠ [] := by
    simpa using hpath
  unfold isAbsolute join
  split
  case isTrue => rw [String.toList_append, List.head?_append_of_ne_nil _ htext]
  case isFalse =>
    rw [String.append_assoc, String.toList_append, List.head?_append_of_ne_nil _ htext]

theorem components_join {path name : String} (hpath : path ≠ "") (hname : IsName name) :
    components (join path name) = components path ++ [.name name] := by
  obtain ⟨front, hfront, hjoin, hpieces⟩ := pieces_join hpath hname
  have hpiece : piece? name = some (.name name) := by
    unfold piece?
    rw [if_neg (not_or.mpr ⟨hname.ne_empty, hname.ne_current⟩), if_neg hname.ne_parent]
  have hhead : (pieces path).head? = front.head? := by
    obtain h | h := hpieces
    · rw [h]
    · rw [h, List.head?_append_of_ne_nil _ hfront]
  have hparts : (pieces path).filterMap piece? = front.filterMap piece? := by
    obtain h | h := hpieces
    · rw [h]
    · rw [h, List.filterMap_append]
      exact List.append_nil _
  simp only [components]
  rw [isAbsolute_join hpath, hjoin, hhead, hparts, List.head?_append_of_ne_nil _ hfront,
    List.filterMap_append, List.filterMap_cons_some hpiece, List.filterMap_nil, List.append_assoc]

end Path

namespace Disk

variable (d : Disk)

/-! Where a path leads -/

/--
One step along a path: the place that is reached, and what a link puts before the rest of the path.
-/
def onward? (here : Location) (piece : String) : Option (Location × List String) :=
  if piece = "" ∨ piece = "." then some (here, [])
  else if piece = ".." then some (here.dropLast, [])
  else
    match d.item? (here ++ [piece]) with
    | none => none
    | some (.link target) => some (origin here target, Path.pieces target)
    | some _ => some (here ++ [piece], [])

/--
The pieces of a path lead to a place, links followed. In contrast to `walkTo` there is no limit to
the number of links.
-/
inductive Leads : Location → List String → Location → Prop where
  | done {here : Location} : Leads here [] here
  | onward {here next loc : Location} {piece : String} {detour rest : List String} :
      d.onward? here piece = some (next, detour) → Leads next (detour ++ rest) loc →
        Leads here (piece :: rest) loc

variable {d}

theorem Leads.unique {here a b : Location} {pieces : List String} (ha : d.Leads here pieces a)
    (hb : d.Leads here pieces b) : a = b := by
  induction ha with
  | done =>
    cases hb
    rfl
  | onward hnext _ ih =>
    cases hb with
    | onward hnext' hrest =>
      rw [hnext] at hnext'
      cases hnext'
      apply ih hrest

theorem Leads.append {here mid loc : Location} {first second : List String}
    (hfirst : d.Leads here first mid) (hsecond : d.Leads mid second loc) :
    d.Leads here (first ++ second) loc := by
  induction hfirst with
  | done => exact hsecond
  | onward hnext _ ih =>
    apply Leads.onward hnext
    have happend := ih hsecond
    rwa [List.append_assoc] at happend

theorem Leads.split {here loc : Location} {first second : List String}
    (h : d.Leads here (first ++ second) loc) :
    ∃ mid, d.Leads here first mid ∧ d.Leads mid second loc := by
  generalize hpieces : first ++ second = pieces at h
  induction h generalizing first with
  | done =>
    obtain ⟨rfl, rfl⟩ := List.append_eq_nil_iff.mp hpieces
    exact ⟨_, .done, .done⟩
  | @onward here next loc piece detour rest hnext hrest ih =>
    cases first with
    | nil =>
      refine ⟨here, .done, ?_⟩
      rw [List.nil_append] at hpieces
      rw [hpieces]
      apply Leads.onward hnext hrest
    | cons piece' first =>
      obtain ⟨rfl, rfl⟩ := List.cons.inj hpieces
      obtain ⟨mid, hfirst, hsecond⟩ := ih (List.append_assoc ..)
      exact ⟨mid, .onward hnext hfirst, hsecond⟩

/--
An empty piece at the end stays where it is.
-/
theorem Leads.of_append_empty {here loc : Location} {pieces : List String}
    (h : d.Leads here (pieces ++ [""]) loc) : d.Leads here pieces loc := by
  obtain ⟨mid, hpieces, hlast⟩ := h.split
  have hstay : d.Leads mid [""] mid := .onward rfl .done
  rwa [hlast.unique hstay]

theorem Leads.join {here mid loc : Location} {path name : String} (hpath : path ≠ "")
    (hname : Path.IsName name) (hmid : d.Leads here (Path.pieces path) mid)
    (hloc : d.Leads mid [name] loc) : d.Leads here (Path.pieces (Path.join path name)) loc := by
  obtain ⟨front, -, hjoin, hpieces⟩ := Path.pieces_join hpath hname
  rw [hjoin]
  obtain h | h := hpieces
  · rw [h] at hmid
    apply hmid.append hloc
  · rw [h] at hmid
    apply hmid.of_append_empty.append hloc

section Onward

variable {here : Location} {piece : String} (hstay : ¬ (piece = "" ∨ piece = "."))
  (hparent : piece ≠ "..")

include hstay hparent

theorem onward?_of_item? {item : Item} (hlink : ∀ target, item = .link target → False)
    (hitem : d.item? (here ++ [piece]) = some item) :
    d.onward? here piece = some (here ++ [piece], []) := by
  unfold onward?
  rw [if_neg hstay, if_neg hparent, hitem]
  cases item with
  | file content => rfl
  | directory => rfl
  | link target => exact absurd rfl (hlink target)

theorem onward?_of_link {target : String}
    (hitem : d.item? (here ++ [piece]) = some (.link target)) :
    d.onward? here piece = some (origin here target, Path.pieces target) := by
  unfold onward?
  rw [if_neg hstay, if_neg hparent, hitem]

end Onward

theorem leads_of_item? {here : Location} {name : String} {item : Item} (hname : Path.IsName name)
    (hitem : d.item? (here ++ [name]) = some item) (hlink : ∀ target, item = .link target → False) :
    d.Leads here [name] (here ++ [name]) := by
  have hstay := not_or.mpr ⟨hname.ne_empty, hname.ne_current⟩
  apply Leads.onward (onward?_of_item? hstay hname.ne_parent hlink hitem)
  exact .done

section Induction

variable {followLast : Bool} {loc : Location} {motive : Location → List String → Prop}
  (done : motive loc [])
  (last : ∀ here piece, ¬ (piece = "" ∨ piece = ".") → piece ≠ ".." → loc = here ++ [piece] →
    (followLast → d.item? loc = none) → motive here [piece])
  (onward : ∀ here next piece detour rest, d.onward? here piece = some (next, detour) →
    motive next (detour ++ rest) → motive here (piece :: rest))

include done last onward

theorem walkAlong_induction
    {follow : Location → String → List String → Except ReadError Location}
    (hfollow : ∀ here target rest, follow here target rest = .ok loc →
      motive (origin here target) (Path.pieces target ++ rest))
    {here : Location} {pieces : List String}
    (h : d.walkAlong followLast follow here pieces = .ok loc) : motive here pieces := by
  fun_induction walkAlong d followLast follow here pieces with
  | case1 =>
    cases h
    exact done
  | case3 here piece rest _ hstay ih =>
    apply onward here here piece [] rest ?_ (ih h)
    rw [onward?, if_pos hstay]
  | case4 here rest _ hstay ih =>
    apply onward here here.dropLast ".." [] rest ?_ (ih h)
    rfl
  | case6 here piece rest _ hstay hparent _ hitem hrest =>
    rw [List.isEmpty_iff] at hrest
    subst hrest
    cases h
    apply last here piece hstay hparent rfl
    exact fun _ => hitem
  | case8 here piece rest _ hstay hparent _ target hitem hlast =>
    rw [List.isEmpty_iff] at hlast
    obtain ⟨rfl, hstop⟩ := hlast
    cases h
    apply last here piece hstay hparent rfl
    intro hgoesOn
    rw [hgoesOn] at hstop
    nomatch hstop
  | case9 here piece rest _ hstay hparent _ target hitem =>
    apply onward here _ piece (Path.pieces target) rest ?_ (hfollow here target rest h)
    apply onward?_of_link hstay hparent hitem
  | case10 here piece rest _ hstay hparent _ item hlink hitem ih =>
    apply onward here (here ++ [piece]) piece [] rest ?_ (ih h)
    apply onward?_of_item? hstay hparent hlink hitem
  | case2 | case5 | case7 => nomatch h

/--
Induction along a walk that ends at a place. The last step may lead to where nothing is, or to a
link that is not followed.
-/
theorem walkTo_induction {links : Nat} {here : Location} {pieces : List String}
    (h : d.walkTo followLast links here pieces = .ok loc) : motive here pieces := by
  -- Each link that is followed starts a walk with one link less.
  induction links generalizing here pieces with
  | zero =>
    apply walkAlong_induction done last onward ?_ h
    intro here target rest hfollow
    nomatch hfollow
  | succ links ih =>
    apply walkAlong_induction done last onward ?_ h
    intro here target rest hfollow
    apply ih hfollow

end Induction

/--
The walk along a path ends where the path leads, if something is there.
-/
theorem leads_of_walkTo {links : Nat} {here loc : Location} {pieces : List String}
    (h : d.walkTo true links here pieces = .ok loc) (hloc : (d.item? loc).isSome) :
    d.Leads here pieces loc := by
  apply walkTo_induction (motive := fun here pieces => d.Leads here pieces loc)
    ?done ?last ?onward h
  case done => exact .done
  case last =>
    intro here piece _ _ _ hnone
    rw [hnone rfl] at hloc
    nomatch hloc
  case onward =>
    intro here next piece detour rest hnext hrest
    apply Leads.onward hnext hrest

/-! What a path names -/

theorem walkTo_of_locate {followLast : Bool} {here loc : Location} {path : String}
    (h : d.locate followLast here path = .ok loc) :
    path ≠ "" ∧ d.walkTo followLast maxLinks (origin here path) (Path.pieces path) = .ok loc := by
  unfold locate at h
  split at h
  case isTrue => nomatch h
  case isFalse =>
    split at h
    case isTrue => nomatch h
    case isFalse hpath =>
      split at h
      case isTrue => nomatch h
      case isFalse => exact ⟨hpath, h⟩

theorem itemAt_eq_ok_iff {here : Location} {path : String} {item : Item} :
    d.itemAt here path = .ok item ↔
      ∃ loc, d.resolve here path = .ok loc ∧ d.item? loc = some item := by
  unfold itemAt resolve
  cases hlocate : d.locate true here path with
  | error e => simp [bind, Except.bind]
  | ok loc =>
    cases hitem : d.item? loc with
    | none => simp [bind, Except.bind, hitem]
    | some found => simp [bind, Except.bind, hitem, pure, Except.pure]

theorem locate_of_resolve {here loc : Location} {path : String}
    (h : d.resolve here path = .ok loc) :
    d.locate true here path = .ok loc ∧ (d.item? loc).isSome := by
  unfold resolve at h
  cases hlocate : d.locate true here path with
  | error e =>
    rw [hlocate] at h
    nomatch h
  | ok place =>
    rw [hlocate] at h
    simp only [bind, Except.bind] at h
    split at h
    case isFalse => nomatch h
    case isTrue hitem =>
      cases h
      exact ⟨rfl, hitem⟩

theorem leads_of_resolve {here loc : Location} {path : String}
    (h : d.resolve here path = .ok loc) : d.Leads (origin here path) (Path.pieces path) loc := by
  obtain ⟨hlocate, hitem⟩ := locate_of_resolve h
  apply leads_of_walkTo (walkTo_of_locate hlocate).2 hitem

theorem leads_of_itemAt {here : Location} {path : String} {item : Item}
    (h : d.itemAt here path = .ok item) :
    ∃ loc, d.Leads (origin here path) (Path.pieces path) loc ∧ d.item? loc = some item := by
  obtain ⟨loc, hresolve, hitem⟩ := itemAt_eq_ok_iff.mp h
  exact ⟨loc, leads_of_resolve hresolve, hitem⟩

/-! Disks with proper names -/

variable (d) in
/--
The places that hold something.
-/
def places : List Location := d.items.map (·.1)

/--
The name of a place in the directory it lies in, if that is the given one.
-/
def nameIn? (loc place : Location) : Option String :=
  match place.getLast? with
  | some name => if place.dropLast = loc then some name else none
  | none => none

theorem names_eq (loc : Location) : d.names loc = d.places.filterMap (nameIn? loc) := by
  unfold places
  rw [List.filterMap_map]
  rfl

theorem nameIn?_eq_some_iff {loc place : Location} {name : String} :
    nameIn? loc place = some name ↔ place = loc ++ [name] := by
  obtain rfl | ⟨front, last, rfl⟩ := List.eq_nil_or_concat place
  · simp [nameIn?]
  · simp [nameIn?, List.concat_eq_append]

theorem mem_names {loc : Location} {name : String} (h : name ∈ d.names loc) :
    loc ++ [name] ∈ d.places := by
  rw [names_eq] at h
  obtain ⟨place, hplace, hname⟩ := List.mem_filterMap.mp h
  rwa [← nameIn?_eq_some_iff.mp hname]

theorem mem_names_of_item? {loc : Location} {name : String} {item : Item}
    (h : d.item? (loc ++ [name]) = some item) : name ∈ d.names loc := by
  have hlookup : d.items.lookup (loc ++ [name]) = some item := by
    simpa [item?] using h
  obtain ⟨before, after, hitems, -⟩ := List.lookup_eq_some_iff.mp hlookup
  rw [names_eq, List.mem_filterMap]
  refine ⟨loc ++ [name], ?_, nameIn?_eq_some_iff.mpr rfl⟩
  simp [places, hitems]

/--
Every item has a place of its own, and the names on the way to it are such as entries can have.
-/
structure IsProper (d : Disk) : Prop where
  nodup : d.places.Nodup
  isName : ∀ place ∈ d.places, ∀ name ∈ place, Path.IsName name
  workingDirectory : ∀ name ∈ d.workingDirectory, Path.IsName name

theorem IsProper.isName_of_mem_names (hd : d.IsProper) {loc : Location} {name : String}
    (h : name ∈ d.names loc) : Path.IsName name := by
  apply hd.isName _ (mem_names h)
  simp

theorem IsProper.nodup_names (hd : d.IsProper) (loc : Location) : (d.names loc).Nodup := by
  rw [names_eq]
  apply hd.nodup.filterMap
  intro place other name hplace hother
  rw [nameIn?_eq_some_iff.mp hplace, nameIn?_eq_some_iff.mp hother]

theorem isName_of_mem_append {here : Location} {piece : String}
    (hhere : ∀ name ∈ here, Path.IsName name) (hpiece : '/' ∉ piece.toList)
    (hstay : ¬ (piece = "" ∨ piece = ".")) (hparent : piece ≠ "..") :
    ∀ name ∈ here ++ [piece], Path.IsName name := by
  rw [not_or] at hstay
  apply List.forall_mem_append.mpr ⟨hhere, ?_⟩
  rw [List.forall_mem_singleton]
  exact ⟨hstay.1, hstay.2, hparent, hpiece⟩

theorem isName_of_mem_origin {here : Location} (hhere : ∀ name ∈ here, Path.IsName name)
    (path : String) : ∀ name ∈ origin here path, Path.IsName name := by
  unfold origin
  split
  case isTrue => simp
  case isFalse => exact hhere

theorem isName_of_onward? {here next : Location} {piece : String} {detour : List String}
    (hhere : ∀ name ∈ here, Path.IsName name) (hpiece : '/' ∉ piece.toList)
    (h : d.onward? here piece = some (next, detour)) :
    (∀ name ∈ next, Path.IsName name) ∧ ∀ part ∈ detour, '/' ∉ part.toList := by
  unfold onward? at h
  split at h
  case isTrue =>
    cases h
    exact ⟨hhere, by simp⟩
  case isFalse hstay =>
    split at h
    case isTrue =>
      cases h
      exact ⟨fun name hname => hhere name (List.dropLast_subset _ hname), by simp⟩
    case isFalse hparent =>
      split at h
      case h_1 => nomatch h
      case h_2 target _ =>
        cases h
        exact ⟨isName_of_mem_origin hhere target, fun _ hpart => Path.noSlash_of_mem_pieces hpart⟩
      case h_3 =>
        cases h
        exact ⟨isName_of_mem_append hhere hpiece hstay hparent, by simp⟩

theorem isName_of_walkTo {followLast : Bool} {links : Nat} {here loc : Location}
    {pieces : List String} (hhere : ∀ name ∈ here, Path.IsName name)
    (hpieces : ∀ piece ∈ pieces, '/' ∉ piece.toList)
    (h : d.walkTo followLast links here pieces = .ok loc) : ∀ name ∈ loc, Path.IsName name := by
  have hwalk : (∀ name ∈ here, Path.IsName name) →
      (∀ piece ∈ pieces, '/' ∉ piece.toList) → ∀ name ∈ loc, Path.IsName name := by
    apply walkTo_induction (motive := fun here pieces => (∀ name ∈ here, Path.IsName name) →
      (∀ piece ∈ pieces, '/' ∉ piece.toList) → ∀ name ∈ loc, Path.IsName name)
      ?done ?last ?onward h
    case done =>
      intro hhere _
      exact hhere
    case last =>
      intro here piece hstay hparent hloc _ hhere hpieces
      rw [hloc]
      apply isName_of_mem_append hhere (hpieces piece List.mem_cons_self) hstay hparent
    case onward =>
      intro here next piece detour rest hnext ih hhere hpieces
      obtain ⟨hpiece, hrest⟩ := List.forall_mem_cons.mp hpieces
      obtain ⟨hnames, hdetour⟩ := isName_of_onward? hhere hpiece hnext
      apply ih hnames
      exact List.forall_mem_append.mpr ⟨hdetour, hrest⟩
  exact hwalk hhere hpieces

theorem IsProper.isName_of_locate (hd : d.IsProper) {followLast : Bool} {loc : Location}
    {path : String} (h : d.locate followLast d.workingDirectory path = .ok loc) :
    ∀ name ∈ loc, Path.IsName name := by
  apply isName_of_walkTo (isName_of_mem_origin hd.workingDirectory path) ?_ (walkTo_of_locate h).2
  intro piece hpiece
  apply Path.noSlash_of_mem_pieces hpiece

theorem isProper_empty : IsProper {} := ⟨List.nodup_nil, nofun, nofun⟩

theorem workingDirectory_put (loc : Location) (item : Item) :
    (d.put loc item).workingDirectory = d.workingDirectory := by
  unfold put
  split
  case isTrue => rfl
  case isFalse => rfl

theorem places_put (loc : Location) (item : Item) :
    (d.put loc item).places = if loc ∈ d.places then d.places else d.places ++ [loc] := by
  have hany : d.items.any (·.1 = loc) ↔ loc ∈ d.places := by
    simp [places]
  unfold put
  by_cases hloc : loc ∈ d.places
  · rw [if_pos (hany.mpr hloc), if_pos hloc]
    unfold places
    rw [List.map_map]
    rfl
  · rw [if_neg (mt hany.mp hloc), if_neg hloc]
    unfold places
    rw [List.map_append]
    rfl

theorem IsProper.put (hd : d.IsProper) {loc : Location} (hloc : ∀ name ∈ loc, Path.IsName name)
    (item : Item) : (d.put loc item).IsProper := by
  have hplaces := places_put (d := d) loc item
  split at hplaces
  case isTrue =>
    constructor
    · rw [hplaces]
      exact hd.nodup
    · rw [hplaces]
      exact hd.isName
    · rw [workingDirectory_put]
      exact hd.workingDirectory
  case isFalse hnew =>
    constructor
    · rw [hplaces, ← List.concat_eq_append]
      apply hd.nodup.concat hnew
    · rw [hplaces]
      apply List.forall_mem_append.mpr ⟨hd.isName, ?_⟩
      simpa using hloc
    · rw [workingDirectory_put]
      exact hd.workingDirectory

theorem IsProper.makeDirectory (hd : d.IsProper) (path : String) :
    (d.makeDirectory path).IsProper := by
  simp only [Disk.makeDirectory]
  induction List.range (Path.pieces path).length generalizing d with
  | nil => exact hd
  | cons i rest ih =>
    apply ih
    unfold makeDirectory.step
    split
    case h_2 => exact hd
    case h_1 loc hwalk =>
      split
      case isTrue => exact hd
      case isFalse =>
        apply hd.put
        apply isName_of_walkTo (isName_of_mem_origin hd.workingDirectory path) ?_ hwalk
        intro piece hpiece
        apply Path.noSlash_of_mem_pieces (List.mem_of_mem_take hpiece)

theorem IsProper.write (hd : d.IsProper) (path : String) (content : List UInt8) :
    (d.write path content).IsProper := by
  have hparent := hd.makeDirectory (parentPath path)
  simp only [Disk.write]
  split
  case h_1 loc hlocate => exact hparent.put (hparent.isName_of_locate hlocate) _
  case h_2 => exact hparent

theorem IsProper.makeLink (hd : d.IsProper) (path target : String) :
    (d.makeLink path target).IsProper := by
  have hparent := hd.makeDirectory (parentPath path)
  simp only [Disk.makeLink]
  split
  case h_1 loc hlocate => exact hparent.put (hparent.isName_of_locate hlocate) _
  case h_2 => exact hparent

theorem IsProper.remove (hd : d.IsProper) (path : String) : (d.remove path).IsProper := by
  unfold Disk.remove
  split
  case h_2 => exact hd
  case h_1 loc hlocate =>
    have hkept : ((d.items.filter (!loc.isPrefixOf ·.1)).map (·.1)).Sublist d.places := by
      apply List.Sublist.map
      apply List.filter_sublist
    constructor
    · exact hd.nodup.sublist hkept
    · intro place hplace
      exact hd.isName place (hkept.subset hplace)
    · exact hd.workingDirectory

end Disk

end Polyglot
