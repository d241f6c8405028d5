/-
  Scriptlet.Proofs.Rendering — the text of a value, whatever the containers in it hold.

  Arrays and dictionaries can hold each other and themselves, so to follow a value need not end.  The
  writer follows no container inside itself, and then it does end: containers that lie around each
  other are distinct, and there are finitely many.  What it writes is a finite tree.  The places of
  this tree are the places that the writer visits, and a container is cut short at a place exactly if
  it encloses that place; one that two others share is written in full under both.

  Main results:
    * `Heap.text_tree` — the text of a value is that of its tree.
    * `Heap.Occurs.at_tree` and `Heap.occurs_of_at` — the places of the tree and those visited.
    * `Heap.unfolds_tree` — where no container leads back to itself nothing is cut short.
    * `rendering_is_exact` — all of it, for every heap.
-/
import Scriptlet.Value.Render

namespace Scriptlet

/-! ## §1. Trees -/

/-- What is seen of a value when the containers in it are followed. -/
inductive Tree where
  | nil
  | bool (b : Bool)
  | int (n : Int64)
  | float (x : Float32)
  | double (x : Float)
  | string (s : String)
  | nothing
  | just (content : Tree)
  | array (items : List Tree)
  | dict (entries : List (String × Tree))
  /-- A container inside itself, which is not followed again. -/
  | again

namespace Tree

mutual

/-- The structural text of a tree: strings in quotes inside containers only, optionals as their
    content, or `nil`. -/
def text (nested : Bool) : Tree → String
  | .nil => "nil"
  | .bool b => if b then "true" else "false"
  | .int n => Number.Word.text n
  | .float x => Number.Decimal.fixed Value.places (Number.readSingle x)
  | .double x => Number.Decimal.fixed Value.places (Number.readDouble x)
  | .string s => if nested then "\"" ++ s ++ "\"" else s
  | .nothing => "nil"
  | .just content => content.text nested
  | .array items => "[" ++ ", ".intercalate (itemTexts items) ++ "]"
  | .dict entries => "[" ++ ", ".intercalate (entryTexts entries) ++ "]"
  | .again => "[...]"

/-- The texts of elements. -/
def itemTexts : List Tree → List String
  | [] => []
  | t :: rest => t.text true :: itemTexts rest

/-- The texts of entries, each with its key. -/
def entryTexts : List (String × Tree) → List String
  | [] => []
  | (key, t) :: rest => ("\"" ++ key ++ "\": " ++ t.text true) :: entryTexts rest

end

theorem itemTexts_eq_map (items : List Tree) : itemTexts items = items.map (text true) := by
  induction items with
  | nil => rfl
  | cons t rest ih => rw [itemTexts, ih, List.map_cons]

theorem entryTexts_eq_map (entries : List (String × Tree)) :
    entryTexts entries = entries.map fun (key, t) => "\"" ++ key ++ "\": " ++ t.text true := by
  induction entries with
  | nil => rfl
  | cons entry rest ih => rw [entryTexts, ih, List.map_cons]

/-- The trees directly below the root. -/
def children : Tree → List Tree
  | .just content => [content]
  | .array items => items
  | .dict entries => entries.map Prod.snd
  | _ => []

/-- The tree at a place, which is given by the positions that lead to it, the last one first. -/
def at? (t : Tree) : List Nat → Option Tree
  | [] => some t
  | i :: path => (t.at? path).bind (·.children[i]?)

end Tree

/-! ## §2. The tree of a value -/

/-- The container as a value. -/
def Container.value : Container → Value
  | .array ref => .array ref
  | .dict ref => .dict ref

/-- The container that a value is, or holds in optionals. -/
def Value.container? : Value → Option Container
  | .array ref => some (.array ref)
  | .dict ref => some (.dict ref)
  | .just _ content => content.container?
  | _ => none

/-- The tree of a value that neither is a container nor holds anything. -/
def Value.leaf? : Value → Option Tree
  | .nil => some .nil
  | .bool b => some (.bool b)
  | .int n => some (.int n)
  | .float x => some (.float x)
  | .double x => some (.double x)
  | .string s => some (.string s)
  | .nothing _ => some .nothing
  | _ => none

/-- The tree of a value, given the trees of containers. -/
def Value.treeWith (container : Container → Tree) : Value → Tree
  | .nil => .nil
  | .bool b => .bool b
  | .int n => .int n
  | .float x => .float x
  | .double x => .double x
  | .string s => .string s
  | .nothing _ => .nothing
  | .just _ content => .just (content.treeWith container)
  | .array ref => container (.array ref)
  | .dict ref => container (.dict ref)

namespace Heap

/-- The values that a container holds. -/
def contents (h : Heap) : Container → List Value
  | .array ref => (h.items ref).toList
  | .dict ref => (h.table ref).entries.map Prod.snd

/-- The tree of a container, given the trees of values. -/
def fullTree (h : Heap) (tree : Value → Tree) : Container → Tree
  | .array ref => .array ((h.items ref).toList.map tree)
  | .dict ref => .dict ((h.table ref).entries.map fun (key, v) => (key, tree v))

/-- The tree of a container inside others, at most so many levels high. -/
def containerTree (h : Heap) : Nat → List Container → Container → Tree
  | 0, _, _ => .again
  | levels + 1, enclosing, c =>
    if c ∈ enclosing then .again
    else h.fullTree (Value.treeWith (h.containerTree levels (c :: enclosing))) c

/-- The tree of a value. -/
def tree (h : Heap) (v : Value) : Tree := v.treeWith (h.containerTree h.levels [])

/-- What stands below a container written in full are its parts. -/
theorem children_fullTree (h : Heap) (tree : Value → Tree) (c : Container) :
    (h.fullTree tree c).children = (h.contents c).map tree := by
  cases c with
  | array ref => rfl
  | dict ref => simp [fullTree, Tree.children, contents]

end Heap

/-- The text of a value's tree is its text, if so are those of containers. -/
theorem Value.text_treeWith {tree : Container → Tree} {container : Container → String}
    (hc : ∀ c nested, (tree c).text nested = container c) (v : Value) (nested : Bool) :
    (v.treeWith tree).text nested = v.textWith container nested := by
  induction v with
  | just i content ih => rw [treeWith, textWith, Tree.text, ih]
  | array ref => exact hc (.array ref) nested
  | dict ref => exact hc (.dict ref) nested
  | _ => rw [treeWith, textWith, Tree.text]

namespace Heap

/-- The text of a container written in full, from the texts of its parts. -/
theorem text_fullTree (h : Heap) {tree : Value → Tree} {text : Value → String}
    (hv : ∀ v, (tree v).text true = text v) (c : Container) (nested : Bool) :
    (h.fullTree tree c).text nested = "[" ++ ", ".intercalate (h.partTexts text c) ++ "]" := by
  cases c with
  | array ref => simp [fullTree, Tree.text, Tree.itemTexts_eq_map, partTexts, hv, Function.comp_def]
  | dict ref => simp [fullTree, Tree.text, Tree.entryTexts_eq_map, partTexts, hv, Function.comp_def]

/-- By induction on the levels; what is cut short has the same text in both. -/
theorem text_containerTree (h : Heap) (levels : Nat) (enclosing : List Container) (c : Container)
    (nested : Bool) :
    (h.containerTree levels enclosing c).text nested = h.containerText levels enclosing c := by
  induction levels generalizing enclosing c nested with
  | zero => rw [containerTree, containerText, Tree.text]
  | succ levels ih =>
    rw [containerTree, containerText]
    split
    · rw [Tree.text]
    · exact h.text_fullTree (fun v => v.text_treeWith (ih (c :: enclosing)) true) c nested

/-- **The text of a value is that of its tree.** -/
theorem text_tree (h : Heap) (v : Value) : (h.tree v).text false = h.text v :=
  v.text_treeWith (h.text_containerTree h.levels []) false

end Heap

/-! ## §3. Containers around each other -/

namespace Heap

/-- The heap has the container. -/
def Has (h : Heap) : Container → Prop
  | .array ref => ref.index < h.arrays.size
  | .dict ref => ref.index < h.dicts.size

/-- All containers of the heap. -/
def containers (h : Heap) : List Container :=
  (List.range h.arrays.size).map (.array ⟨·⟩) ++ (List.range h.dicts.size).map (.dict ⟨·⟩)

/-- Each container of the heap is listed. -/
theorem mem_containers {h : Heap} {c : Container} (hc : h.Has c) : c ∈ h.containers := by
  cases c with
  | array ref =>
    exact List.mem_append_left _ (List.mem_map.mpr ⟨ref.index, List.mem_range.mpr hc, rfl⟩)
  | dict ref =>
    exact List.mem_append_right _ (List.mem_map.mpr ⟨ref.index, List.mem_range.mpr hc, rfl⟩)

/-- There is one level more than containers. -/
theorem levels_eq (h : Heap) : h.levels = h.containers.length + 1 := by
  simp [levels, containers]

/-- A container that holds something is one of the heap. -/
theorem has_of_contents {h : Heap} {c : Container} {v : Value} (hv : v ∈ h.contents c) :
    h.Has c := by
  cases c with
  | array ref =>
    refine Nat.lt_of_not_le fun hout => ?_
    have hnone : h.items ref = #[] := by
      simp [items, Array.getD_eq_getD_getElem?, Array.getElem?_eq_none hout]
    simp [contents, hnone] at hv
  | dict ref =>
    refine Nat.lt_of_not_le fun hout => ?_
    have hnone : h.table ref = .empty := by
      simp [table, Array.getD_eq_getD_getElem?, Array.getElem?_eq_none hout]
    simp [contents, hnone, OrderedMap.empty] at hv

/-- Containers that can lie around a place: they are distinct and all hold something. -/
structure Around (h : Heap) (enclosing : List Container) : Prop where
  nodup : enclosing.Nodup
  has : ∀ c ∈ enclosing, h.Has c

namespace Around

variable {h : Heap} {enclosing : List Container}

theorem nil : h.Around [] := ⟨.nil, fun _ hc => by cases hc⟩

/-- Inside a container that is not around yet. -/
theorem cons {c : Container} {v : Value} (ha : h.Around enclosing) (hc : c ∉ enclosing)
    (hv : v ∈ h.contents c) : h.Around (c :: enclosing) := by
  refine ⟨List.nodup_cons.mpr ⟨hc, ha.nodup⟩, fun c' hc' => ?_⟩
  rcases List.mem_cons.mp hc' with rfl | hc'
  · exact has_of_contents hv
  · exact ha.has c' hc'

/-- There are not more containers around a place than the heap has, as they are distinct. -/
theorem length_le (ha : h.Around enclosing) : enclosing.length ≤ h.containers.length :=
  ha.nodup.length_le_of_subset fun c hc => mem_containers (ha.has c hc)

/-- Not all levels have been used where so many containers lie around. -/
theorem levels_left (ha : h.Around enclosing) {levels : Nat}
    (hlevels : levels + enclosing.length = h.levels) : ∃ n, levels = n + 1 := by
  have hlength := ha.length_le
  rw [levels_eq] at hlevels
  exact ⟨levels - 1, by omega⟩

end Around

end Heap

/-! ## §4. Places -/

namespace Heap

/-- What the writer visits, from a value on: the place, the containers that enclose it, the innermost
    first, and the value there.  It goes through optionals, and into each container that does not
    enclose itself. -/
inductive Occurs (h : Heap) (root : Value) : List Nat → List Container → Value → Prop
  | root : Occurs h root [] [] root
  | content {path enclosing i v} : Occurs h root path enclosing (.just i v) →
      Occurs h root (0 :: path) enclosing v
  | part {path enclosing c i v} : Occurs h root path enclosing c.value → c ∉ enclosing →
      (h.contents c)[i]? = some v → Occurs h root (i :: path) (c :: enclosing) v

/-- The tree of a container written in full has a part for each of its elements or keys. -/
def Fits (h : Heap) : Container → Tree → Prop
  | .array ref, .array items => items.length = (h.items ref).size
  | .dict ref, .dict entries => entries.map Prod.fst = (h.table ref).keys
  | _, _ => False

/-- How a value is written inside containers, up to what is written for its parts. -/
inductive Shows (h : Heap) (enclosing : List Container) : Value → Tree → Prop
  | leaf {v t} : v.leaf? = some t → Shows h enclosing v t
  | just {i v t} : Shows h enclosing (.just i v) (.just t)
  | again {c} : c ∈ enclosing → Shows h enclosing c.value .again
  | full {c t} : c ∉ enclosing → h.Fits c t → Shows h enclosing c.value t

variable {h : Heap} {root : Value} {path : List Nat} {enclosing : List Container} {v : Value}

theorem container?_value (c : Container) : c.value.container? = some c := by
  cases c <;> rfl

theorem treeWith_value (tree : Container → Tree) (c : Container) :
    c.value.treeWith tree = tree c := by
  cases c <;> rfl

/-- A container written in full has a part for each of its own. -/
theorem fits_fullTree (h : Heap) (tree : Value → Tree) (c : Container) :
    h.Fits c (h.fullTree tree c) := by
  cases c with
  | array ref => simp [Fits, fullTree]
  | dict ref => simp [Fits, fullTree, OrderedMap.keys]

/-- A container shows as cut short if it is around, and in full if not: levels are left. -/
theorem shows_containerTree (ha : h.Around enclosing) {levels : Nat}
    (hlevels : levels + enclosing.length = h.levels) (c : Container) :
    h.Shows enclosing c.value (h.containerTree levels enclosing c) := by
  obtain ⟨n, rfl⟩ := ha.levels_left hlevels
  rw [containerTree]
  split
  · exact .again ‹_›
  · exact .full ‹_› (h.fits_fullTree _ c)

/-- **A value shows what it is**, inside the containers around it. -/
theorem shows_treeWith (ha : h.Around enclosing) {levels : Nat}
    (hlevels : levels + enclosing.length = h.levels) (v : Value) :
    h.Shows enclosing v (v.treeWith (h.containerTree levels enclosing)) := by
  cases v with
  | just i content => exact .just
  | array ref => exact shows_containerTree ha hlevels (.array ref)
  | dict ref => exact shows_containerTree ha hlevels (.dict ref)
  | _ => exact .leaf rfl

/-- **At each place that the writer visits stands the tree of the value there**, as high as the
    containers around it leave. -/
theorem Occurs.at_tree (ho : h.Occurs root path enclosing v) :
    h.Around enclosing ∧ ∃ levels, levels + enclosing.length = h.levels ∧
      (h.tree root).at? path = some (v.treeWith (h.containerTree levels enclosing)) := by
  induction ho with
  | root => exact ⟨.nil, h.levels, rfl, rfl⟩
  -- through an optional nothing lies around that did not before
  | content _ ih =>
    obtain ⟨ha, levels, hlevels, htree⟩ := ih
    refine ⟨ha, levels, hlevels, ?_⟩
    rw [Tree.at?, htree]
    rfl
  -- into a container: it is one more around, and one level less is left
  | @part path enclosing c i v _ hc hv ih =>
    obtain ⟨ha, levels, hlevels, htree⟩ := ih
    obtain ⟨n, rfl⟩ := ha.levels_left hlevels
    refine ⟨ha.cons hc (List.mem_of_getElem? hv), n, ?_, ?_⟩
    · rw [List.length_cons]
      omega
    · rw [Tree.at?, htree, Option.bind_some, treeWith_value, containerTree, if_neg hc,
        children_fullTree, List.getElem?_map, hv]
      rfl

/-- A tree below that of a container stands for something in it. -/
theorem Occurs.of_child {c : Container} (ho : h.Occurs root path enclosing c.value)
    {levels i : Nat} {t : Tree}
    (ht : (h.containerTree levels enclosing c).children[i]? = some t) :
    ∃ enclosing v, h.Occurs root (i :: path) enclosing v := by
  cases levels with
  | zero => cases ht
  | succ n =>
    rw [containerTree] at ht
    split at ht
    · cases ht
    · rw [children_fullTree, List.getElem?_map] at ht
      obtain ⟨v, hv, -⟩ := Option.map_eq_some_iff.mp ht
      exact ⟨_, v, ho.part ‹_› hv⟩

/-- **Every place of the tree is one that the writer visits.** -/
theorem occurs_of_at {t : Tree} (ht : (h.tree root).at? path = some t) :
    ∃ enclosing v, h.Occurs root path enclosing v := by
  induction path generalizing t with
  | nil => exact ⟨[], root, .root⟩
  | cons i path ih =>
    rw [Tree.at?] at ht
    obtain ⟨above, habove, hchild⟩ := Option.bind_eq_some_iff.mp ht
    obtain ⟨enclosing, v, ho⟩ := ih habove
    obtain ⟨-, levels, -, htree⟩ := ho.at_tree
    rw [habove] at htree
    cases htree
    cases v with
    -- below an optional stands its content, and nothing else
    | just identity content =>
      have hlast : i = 0 := by
        have hlength := (List.getElem?_eq_some_iff.mp hchild).1
        exact Nat.lt_one_iff.mp hlength
      subst hlast
      exact ⟨enclosing, content, ho.content⟩
    -- below a container stand its parts, and below all else nothing
    | array ref => exact Occurs.of_child (c := .array ref) ho hchild
    | dict ref => exact Occurs.of_child (c := .dict ref) ho hchild
    | _ => cases hchild

/-! ## §5. Unfolding -/

/-- The containers that a value leads to. -/
inductive Leads (h : Heap) : Value → Container → Prop
  | here {v c} : v.container? = some c → Leads h v c
  | part {v c w c'} : v.container? = some c → w ∈ h.contents c → Leads h w c' → Leads h v c'

/-- The whole tree of a value, in which every container is followed. -/
inductive Unfolds (h : Heap) : Value → Tree → Prop
  | leaf {v t} : v.leaf? = some t → Unfolds h v t
  | just {i v t} : Unfolds h v t → Unfolds h (.just i v) (.just t)
  | container {c t} : h.Fits c t →
      (∀ (i : Nat) v u, (h.contents c)[i]? = some v → t.children[i]? = some u → Unfolds h v u) →
      Unfolds h c.value t

theorem Fits.length_eq {c : Container} {t : Tree} (ht : h.Fits c t) :
    t.children.length = (h.contents c).length := by
  cases c with
  | array ref =>
    cases t with
    | array items => exact ht.trans Array.length_toList.symm
    | _ => exact False.elim ht
  | dict ref =>
    cases t with
    | dict entries => simpa [Tree.children, contents, OrderedMap.keys] using congrArg List.length ht
    | _ => exact False.elim ht

/-- A container written in full is determined by what is written for its parts. -/
theorem Fits.ext {c : Container} {t u : Tree} (ht : h.Fits c t) (hu : h.Fits c u)
    (heq : t.children = u.children) : t = u := by
  cases c with
  | array ref =>
    cases t with
    | array items =>
      cases u with
      | array items' => exact congrArg Tree.array heq
      | _ => exact False.elim hu
    | _ => exact False.elim ht
  | dict ref =>
    cases t with
    -- dictionaries with the same keys and the same trees under them
    | dict entries =>
      cases u with
      | dict entries' =>
        have hkeys : entries.map Prod.fst = entries'.map Prod.fst := ht.trans hu.symm
        exact congrArg Tree.dict ((List.zip_of_prod hkeys heq).trans (List.zip_of_prod rfl rfl).symm)
      | _ => exact False.elim hu
    | _ => exact False.elim ht

theorem container_value_inj {c c' : Container} (heq : c.value = c'.value) : c = c' := by
  have hsome := congrArg Value.container? heq
  rw [container?_value, container?_value] at hsome
  exact Option.some.inj hsome

/-- A value has at most one whole tree. -/
theorem Unfolds.unique {t u : Tree} (ht : h.Unfolds v t) (hu : h.Unfolds v u) : u = t := by
  induction ht generalizing u with
  | @leaf v t hleaf =>
    cases hu with
    | leaf hleaf' => exact Option.some.inj (hleaf'.symm.trans hleaf)
    | just _ => cases hleaf
    | @container c => cases c <;> cases hleaf
  | @just i v t _ ih =>
    generalize hv : Value.just i v = w at hu
    cases hu with
    | leaf hleaf =>
      subst hv
      cases hleaf
    | just hu =>
      cases hv
      exact congrArg Tree.just (ih hu)
    | @container c => cases c <;> cases hv
  | @container c t hfits _ ih =>
    generalize hv : c.value = w at hu
    cases hu with
    | leaf hleaf =>
      subst hv
      cases c <;> cases hleaf
    | just _ => cases c <;> cases hv
    | container hfits' hparts' =>
      obtain rfl := container_value_inj hv
      -- both have as many parts as the container, and these are equal one by one
      refine hfits'.ext hfits (List.ext_getElem? fun i => ?_)
      cases hpart : (h.contents c)[i]? with
      | none =>
        have hle := List.getElem?_eq_none_iff.mp hpart
        rw [List.getElem?_eq_none (hfits'.length_eq ▸ hle),
          List.getElem?_eq_none (hfits.length_eq ▸ hle)]
      | some w =>
        have hlt := (List.getElem?_eq_some_iff.mp hpart).1
        rw [List.getElem?_eq_getElem (hfits'.length_eq.symm ▸ hlt),
          List.getElem?_eq_getElem (hfits.length_eq.symm ▸ hlt)]
        refine congrArg some (ih i w _ hpart (List.getElem?_eq_getElem _) ?_)
        exact hparts' i w _ hpart (List.getElem?_eq_getElem _)

/-- No container that the value leads to leads back to itself. -/
def Acyclic (h : Heap) (v : Value) : Prop := ∀ c, h.Leads v c → ∀ w ∈ h.contents c, ¬ h.Leads w c

/-- What a container holds leads to nothing that the container does not lead to. -/
theorem Acyclic.part {c : Container} (hacyclic : h.Acyclic c.value) {w : Value}
    (hw : w ∈ h.contents c) : h.Acyclic w :=
  fun c' hc' => hacyclic c' (.part (container?_value c) hw hc')

/-- A container that is not around is unfolded if its parts are. -/
theorem unfolds_containerTree {c : Container} {n : Nat} (hc : c ∉ enclosing)
    (hparts : ∀ w ∈ h.contents c, h.Unfolds w (w.treeWith (h.containerTree n (c :: enclosing)))) :
    h.Unfolds c.value (h.containerTree (n + 1) enclosing c) := by
  rw [containerTree, if_neg hc]
  refine .container (h.fits_fullTree _ c) fun i w u hw hu => ?_
  rw [children_fullTree, List.getElem?_map, hw] at hu
  cases hu
  exact hparts w (List.mem_of_getElem? hw)

/-- By induction on the levels: no container around can be met again. -/
theorem unfolds_treeWith {levels : Nat} (ha : h.Around enclosing)
    (hlevels : levels + enclosing.length = h.levels) (hacyclic : h.Acyclic v)
    (hnew : ∀ c ∈ enclosing, ¬ h.Leads v c) :
    h.Unfolds v (v.treeWith (h.containerTree levels enclosing)) := by
  -- the levels go down from container to container, and the value within optionals
  induction levels generalizing enclosing v with
  | zero =>
    obtain ⟨n, hn⟩ := ha.levels_left hlevels
    cases hn
  | succ n ih =>
    have hcontainer : ∀ c : Container, h.Acyclic c.value → (∀ c' ∈ enclosing, ¬ h.Leads c.value c') →
        h.Unfolds c.value (h.containerTree (n + 1) enclosing c) := by
      intro c hacyclic hnew
      have hc : c ∉ enclosing := fun hmem => hnew c hmem (.here (container?_value c))
      have hlevels' : n + (c :: enclosing).length = h.levels := by
        rw [List.length_cons]
        omega
      refine unfolds_containerTree hc fun w hw => ih (ha.cons hc hw) hlevels' (hacyclic.part hw) ?_
      intro c' hc' hleads
      rcases List.mem_cons.mp hc' with rfl | hc'
      · exact hacyclic c' (.here (container?_value c')) w hw hleads
      · exact hnew c' hc' (.part (container?_value c) hw hleads)
    induction v with
    | just i content ihv =>
      have hleads : ∀ {c}, h.Leads content c → h.Leads (.just i content) c := by
        rintro c (hc | ⟨hc, hw, hleads⟩)
        · exact .here hc
        · exact .part hc hw hleads
      exact .just (ihv (fun c hc => hacyclic c (hleads hc)) fun c hc hc' => hnew c hc (hleads hc'))
    | array ref => exact hcontainer (.array ref) hacyclic hnew
    | dict ref => exact hcontainer (.dict ref) hacyclic hnew
    | _ => exact .leaf rfl

/-- **Where no container leads back to itself nothing is cut short.** -/
theorem unfolds_tree (hacyclic : h.Acyclic v) : h.Unfolds v (h.tree v) :=
  unfolds_treeWith .nil rfl hacyclic fun _ hc => by cases hc

/-! ## §6. The text of every value on every heap -/

/-- A container is cut short at a place exactly if it is one of those around it. -/
theorem Occurs.again_iff {c : Container} (ho : h.Occurs root path enclosing c.value) :
    (h.tree root).at? path = some .again ↔ c ∈ enclosing := by
  obtain ⟨ha, levels, hlevels, htree⟩ := ho.at_tree
  obtain ⟨n, rfl⟩ := ha.levels_left hlevels
  rw [htree, treeWith_value, containerTree]
  split
  · exact ⟨fun _ => ‹_›, fun _ => rfl⟩
  · refine ⟨fun heq => ?_, fun hc => absurd hc ‹_›⟩
    cases c <;> cases heq

end Heap

/-- **The text of a value is exact, on every heap.**  It is the structural text of a finite tree.  The
    places of the tree are those that are visited when containers are followed, but none inside
    itself; at each of them stands what the value there shows, and no more containers lie around it
    than the heap has.  A container is written `[...]` exactly where it is one of those around it.
    And where no container leads back to itself, the tree is the one whole tree of the value. -/
theorem rendering_is_exact (h : Heap) (v : Value) :
    ∃ t : Tree, t.text false = h.text v ∧
      (∀ path t', t.at? path = some t' → ∃ enclosing u, h.Occurs v path enclosing u) ∧
      (∀ path enclosing u, h.Occurs v path enclosing u →
        (enclosing.Nodup ∧ enclosing.length ≤ h.arrays.size + h.dicts.size) ∧
        ∃ t', t.at? path = some t' ∧ h.Shows enclosing u t') ∧
      (∀ path enclosing c, h.Occurs v path enclosing c.value →
        (t.at? path = some .again ↔ c ∈ enclosing)) ∧
      (h.Acyclic v → ∀ t', h.Unfolds v t' ↔ t' = t) := by
  refine ⟨h.tree v, h.text_tree v, fun path t' => Heap.occurs_of_at, ?_,
    fun path enclosing c ho => ho.again_iff, fun hacyclic t' => ?_⟩
  -- the value at a place, and how many containers lie around it
  · intro path enclosing u ho
    obtain ⟨ha, levels, hlevels, htree⟩ := ho.at_tree
    have hlength := ha.length_le
    rw [Heap.containers, List.length_append, List.length_map, List.length_map, List.length_range,
      List.length_range] at hlength
    exact ⟨⟨ha.nodup, hlength⟩, _, htree, Heap.shows_treeWith ha hlevels u⟩
  -- the tree unfolds the value, and nothing else does
  · have hunfolds := Heap.unfolds_tree hacyclic
    exact ⟨hunfolds.unique, fun heq => heq ▸ hunfolds⟩

/-- An array holds itself, through an optional in a dictionary, and holds another one twice; a third
    one holds that one twice and nothing else. -/
theorem rendering_is_exact_shared_and_cyclic :
    let h : Heap :=
      { arrays := #[#[.int 1, .array ⟨1⟩, .dict ⟨0⟩, .array ⟨1⟩], #[.string "a"],
          #[.array ⟨1⟩, .array ⟨1⟩]]
        dicts := #[⟨[("k", .just ⟨0⟩ (.array ⟨0⟩))]⟩]
        optionals := 2 }
    (∃ t : Tree, t.text false = "[1, [\"a\"], [\"k\": [...]], [\"a\"]]" ∧
      t.at? [0, 0, 2] = some .again ∧ t.at? [1] ≠ some .again ∧ t.at? [3] ≠ some .again) ∧
    (h.Acyclic (.just ⟨1⟩ (.array ⟨2⟩)) ∧
      ∃ t : Tree, h.Unfolds (.just ⟨1⟩ (.array ⟨2⟩)) t ∧ t.text false = "[[\"a\"], [\"a\"]]") := by
  intro h
  constructor
  -- the places of the two arrays, and of the dictionary between the first and itself
  · obtain ⟨t, htext, -, -, hagain, -⟩ := rendering_is_exact h (.array ⟨0⟩)
    have houter : h.Occurs (.array ⟨0⟩) [] [] (Container.array ⟨0⟩).value := .root
    have hdict : h.Occurs (.array ⟨0⟩) [2] [.array ⟨0⟩] (Container.dict ⟨0⟩).value :=
      houter.part (by decide) rfl
    have hinner : h.Occurs (.array ⟨0⟩) [0, 0, 2] [.dict ⟨0⟩, .array ⟨0⟩]
        (Container.array ⟨0⟩).value := (hdict.part (by decide) rfl).content
    have hfirst : h.Occurs (.array ⟨0⟩) [1] [.array ⟨0⟩] (Container.array ⟨1⟩).value :=
      houter.part (by decide) rfl
    have hsecond : h.Occurs (.array ⟨0⟩) [3] [.array ⟨0⟩] (Container.array ⟨1⟩).value :=
      houter.part (by decide) rfl
    refine ⟨t, htext.trans (by decide +kernel), (hagain _ _ _ hinner).mpr (by decide), ?_, ?_⟩
    · exact fun heq => absurd ((hagain _ _ _ hfirst).mp heq) (by decide)
    · exact fun heq => absurd ((hagain _ _ _ hsecond).mp heq) (by decide)
  -- the third array leads to the second one only, which leads nowhere
  · have hstring : ∀ c, ¬ h.Leads (.string "a") c := by
      rintro c (hc | ⟨hc, -, -⟩) <;> cases hc
    have hshared : ∀ c, h.Leads (.array ⟨1⟩) c → c = .array ⟨1⟩ := by
      rintro c (hc | ⟨hc, hw, hleads⟩)
      · cases hc
        rfl
      · cases hc
        obtain rfl := List.mem_singleton.mp (show _ ∈ [Value.string "a"] from hw)
        exact absurd hleads (hstring c)
    have hparts : ∀ w ∈ h.contents (.array ⟨2⟩), w = .array ⟨1⟩ := by
      intro w hw
      simpa using (show w ∈ [Value.array ⟨1⟩, .array ⟨1⟩] from hw)
    have hacyclic : h.Acyclic (.just ⟨1⟩ (.array ⟨2⟩)) := by
      rintro c (hc | ⟨hc, hw, hleads⟩) w hin hback
      · cases hc
        obtain rfl := hparts w hin
        cases hshared _ hback
      · cases hc
        obtain rfl := hparts _ hw
        obtain rfl := hshared c hleads
        obtain rfl := List.mem_singleton.mp (show w ∈ [Value.string "a"] from hin)
        exact hstring _ hback
    obtain ⟨t, htext, -, -, -, hunfolds⟩ := rendering_is_exact h (.just ⟨1⟩ (.array ⟨2⟩))
    exact ⟨hacyclic, t, (hunfolds hacyclic t).mpr rfl, htext.trans (by decide +kernel)⟩

end Scriptlet
