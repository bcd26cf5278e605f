import Marginalia.FileTree.Basic
import Mathlib.Data.List.Basic

/-!
Reading behind writing. Writing a file changes one node of the tree and leaves the way to it as it
was, so a path leads to the same place before and after, and what is read there is what was written.
-/

namespace Marginalia.FileTree

variable {tree : FileTree} {names : List Text}

/-! ## Nodes -/

theorem node?_append (front back : List Text) (t : FileTree) :
    node? (front ++ back) t = (node? front t).bind (node? back) := by
  induction front generalizing t with
  | nil => rfl
  | cons name front ih =>
      rw [List.cons_append, node?, node?]
      cases childNamed? name t.entries with
      | none => rfl
      | some below => exact ih below

theorem node?_concat (front : List Text) (name : Text) (t : FileTree) :
    node? (front ++ [name]) t =
      (node? front t).bind fun above => childNamed? name above.entries := by
  rw [node?_append]
  congr 1
  funext above
  rw [node?]
  cases childNamed? name above.entries <;> rfl

theorem childNamed?_putEntry (name : Text) (t : FileTree) (es : List (Text × FileTree)) :
    childNamed? name (putEntry name t es) = some t := by
  induction es with
  | nil => simp [putEntry, childNamed?]
  | cons e es ih =>
      rw [putEntry]
      split
      · simp [childNamed?]
      · rename_i h
        rw [childNamed?, List.find?_cons_of_neg (by simpa using h)]
        exact ih

theorem childNamed?_putEntry_of_ne {name other : Text} (h : other ≠ name) (t : FileTree)
    (es : List (Text × FileTree)) :
    childNamed? other (putEntry name t es) = childNamed? other es := by
  induction es with
  | nil => simp [putEntry, childNamed?, Ne.symm h]
  | cons e es ih =>
      rw [putEntry]
      split
      · rename_i he
        subst he
        simp [childNamed?, Ne.symm h]
      · by_cases ho : e.1 = other
        · simp [childNamed?, ho]
        · rw [childNamed?, childNamed?, List.find?_cons_of_neg (by simpa using ho),
            List.find?_cons_of_neg (by simpa using ho)]
          exact ih

theorem node?_insert (t : FileTree) (names : List Text) (node : FileTree) :
    node? names (t.insert names node) = some node := by
  induction names generalizing t with
  | nil => rfl
  | cons name names ih =>
      rw [insert, node?, entries, childNamed?_putEntry, Option.bind_some]
      exact ih _

/-- A node below which there is something is a directory. -/
theorem exists_directory_of_childNamed? {t below : FileTree} {name : Text}
    (h : childNamed? name t.entries = some below) : ∃ es, t = directory es := by
  cases t with
  | file content => cases h
  | link target => cases h
  | directory es => exact ⟨es, rfl⟩

/-- The nodes are of the same kind, and the same unless they are directories. -/
def Alike : Option FileTree → Option FileTree → Prop
  | some (directory _), some (directory _) => True
  | a, b => a = b

theorem Alike.refl (a : Option FileTree) : Alike a a := by
  match a with
  | none => rfl
  | some (file _) => rfl
  | some (link _) => rfl
  | some (directory _) => trivial

theorem Alike.directory {a b : Option FileTree} {es : List (Text × FileTree)} (h : Alike a b)
    (ha : a = some (.directory es)) : ∃ es', b = some (.directory es') := by
  subst ha
  match b, h with
  | some (.directory es'), _ => exact ⟨es', rfl⟩

theorem Alike.eq {a b : Option FileTree} (h : Alike a b)
    (ha : ∀ es, a ≠ some (.directory es)) : a = b := by
  match a, b, h with
  | some (.directory es), _, _ => exact absurd rfl (ha es)
  | none, _, h => exact h
  | some (.file _), _, h => exact h
  | some (.link _), _, h => exact h

/-- A node with nothing below it, put at a place that is no directory, in a directory, leaves the
kinds of all other nodes as they were. -/
theorem alike_insert {t leaf : FileTree} {q x : List Text} (hleaf : leaf.entries = [])
    (hq : ∀ es, node? q t ≠ some (directory es))
    (habove : q = [] ∨ ∃ es, node? q.dropLast t = some (directory es)) (hx : x ≠ q) :
    Alike (node? x t) (node? x (t.insert q leaf)) := by
  induction q generalizing t x with
  | nil =>
      obtain ⟨m, x, rfl⟩ := List.exists_cons_of_ne_nil hx
      have hnone : node? (m :: x) t = none := by
        cases t with
        | file content => rfl
        | link target => rfl
        | directory es => exact absurd rfl (hq es)
      rw [hnone, insert, node?, hleaf]
      rfl
  | cons n q ih =>
      -- The directory above `q` lies at or below the root, so the root is one too.
      obtain ⟨es, rfl⟩ : ∃ es, t = directory es := by
        rcases habove with h | ⟨es, h⟩
        · cases h
        · cases q with
          | nil => exact ⟨es, Option.some.inj h⟩
          | cons m q =>
              rw [List.dropLast_cons_of_ne_nil (List.cons_ne_nil m q), node?] at h
              obtain ⟨below, hbelow, -⟩ := Option.bind_eq_some_iff.mp h
              exact exists_directory_of_childNamed? hbelow
      cases x with
      | nil => exact trivial
      | cons m x =>
          rw [insert, node?, node?, entries, entries]
          by_cases hm : m = n
          · subst hm
            have hne : x ≠ q := fun h => hx (by rw [h])
            rw [childNamed?_putEntry, Option.bind_some]
            cases hc : childNamed? m es with
            | some below =>
                rw [Option.bind_some, Option.getD_some]
                refine ih (fun es' h => hq es' ?_) ?_ hne
                · rw [node?, entries, hc, Option.bind_some, h]
                · cases q with
                  | nil => exact .inl rfl
                  | cons m' q =>
                      right
                      rcases habove with h | ⟨es', h⟩
                      · cases h
                      · rw [List.dropLast_cons_of_ne_nil (List.cons_ne_nil m' q), node?, entries, hc,
                          Option.bind_some] at h
                        exact ⟨es', h⟩
            | none =>
                -- Nothing is there yet, so only the node itself is put.
                cases q with
                | nil =>
                    obtain ⟨m', x, rfl⟩ := List.exists_cons_of_ne_nil hne
                    rw [Option.getD_none, insert, node?, hleaf]
                    rfl
                | cons m' q =>
                    rcases habove with h | ⟨es', h⟩
                    · cases h
                    · rw [List.dropLast_cons_of_ne_nil (List.cons_ne_nil m' q), node?, entries,
                        hc] at h
                      cases h
          · rw [childNamed?_putEntry_of_ne hm]
            exact .refl _

/-! ## The way to a place -/

section

variable {t : FileTree} {at_ : List Text} {name : Text} {rest : List Text}
  {follow : List Text → List Text → Except SystemCause Place} {place : Place}

/-- A way down may come by here: there is no link, and above it there is a directory. -/
def Reached (t : FileTree) (at_ : List Text) : Prop :=
  (∀ target, t.node? at_ ≠ some (link target)) ∧
    (at_ = [] ∨ ∃ es, t.node? at_.dropLast = some (directory es))

theorem exists_directory_dropLast {es : List (Text × FileTree)}
    (h : t.node? at_ = some (directory es)) :
    ∃ es', t.node? at_.dropLast = some (directory es') := by
  rcases List.eq_nil_or_concat' at_ with rfl | ⟨front, last, rfl⟩
  · exact ⟨es, h⟩
  · rw [node?_concat] at h
    obtain ⟨above, habove, hchild⟩ := Option.bind_eq_some_iff.mp h
    obtain ⟨es', rfl⟩ := exists_directory_of_childNamed? hchild
    rw [List.dropLast_concat]
    exact ⟨es', habove⟩

theorem reached_of_directory {es : List (Text × FileTree)}
    (h : t.node? at_ = some (directory es)) : Reached t at_ := by
  refine ⟨fun target ht => ?_, .inr (exists_directory_dropLast h)⟩
  rw [h] at ht
  cases ht

theorem reached_dropLast {es : List (Text × FileTree)} (h : t.node? at_ = some (directory es)) :
    Reached t at_.dropLast := by
  obtain ⟨es', h'⟩ := exists_directory_dropLast h
  exact reached_of_directory h'

theorem reached_concat {es : List (Text × FileTree)} (h : t.node? at_ = some (directory es))
    (hl : ∀ target, t.node? (at_ ++ [name]) ≠ some (link target)) : Reached t (at_ ++ [name]) := by
  refine ⟨hl, .inr ⟨es, ?_⟩⟩
  rw [List.dropLast_concat]
  exact h

theorem reached_linkStart {es : List (Text × FileTree)} (h : t.node? at_ = some (directory es))
    (target : Path) : Reached t (linkStart at_ target) := by
  rw [linkStart]
  split
  · refine ⟨fun link hl => ?_, .inl rfl⟩
    cases at_ with
    | nil =>
        rw [h] at hl
        cases hl
    | cons n at_ =>
        rw [Option.some.inj hl] at h
        cases h
  · exact reached_of_directory h

/-- One step down from a directory. -/
theorem descend_cons {es : List (Text × FileTree)} (h : t.node? at_ = some (directory es)) :
    descend t follow at_ (name :: rest) =
      if name = Path.up then descend t follow at_.dropLast rest
      else match t.node? (at_ ++ [name]) with
        | some (link target) =>
          follow (linkStart at_ (Path.ofText target)) ((Path.ofText target).names ++ rest)
        | some _ => descend t follow (at_ ++ [name]) rest
        | none => if rest.isEmpty then .ok ⟨at_ ++ [name], none⟩ else .error .missing := by
  have hchild : t.node? (at_ ++ [name]) = childNamed? name es := by
    rw [node?_concat, h]
    rfl
  rw [hchild, descend]
  generalize t.node? at_ = found at h ⊢
  cases h
  rfl

theorem exists_directory_of_descend (h : descend t follow at_ (name :: rest) = .ok place) :
    ∃ es, t.node? at_ = some (directory es) := by
  rw [descend] at h
  split at h
  · exact ⟨_, by assumption⟩
  · cases h

/-- A place that a way leads to tells what stands there. -/
def Found (t : FileTree) (place : Place) : Prop :=
  place.node = t.node? place.names ∧ Reached t place.names

theorem descend_found
    (hf : ∀ at_ names place, Reached t at_ → follow at_ names = .ok place → Found t place)
    {names : List Text} (hr : Reached t at_) (h : descend t follow at_ names = .ok place) :
    Found t place := by
  induction names generalizing at_ with
  | nil =>
      cases h
      exact ⟨rfl, hr⟩
  | cons name rest ih =>
      obtain ⟨es, hes⟩ := exists_directory_of_descend h
      rw [descend_cons hes] at h
      split at h
      · exact ih (reached_dropLast hes) h
      · split at h
        · exact hf _ _ _ (reached_linkStart hes _) h
        · rename_i node hlink hnode
          refine ih (reached_concat hes fun target ht => ?_) h
          exact hlink target (Option.some.inj (hnode.symm.trans ht))
        · rename_i hnone
          split at h
          · cases h
            refine ⟨hnone.symm, reached_concat hes fun target ht => ?_⟩
            rw [hnone] at ht
            cases ht
          · cases h

theorem locateWithin_found {links : Nat} {names : List Text} (hr : Reached t at_)
    (h : locateWithin t links at_ names = .ok place) : Found t place := by
  induction links generalizing at_ names place with
  | zero => cases h
  | succ links ih => exact descend_found (fun _ _ _ => ih) hr h

end

/-! ## The same way after writing -/

section

variable {t leaf : FileTree} {q : List Text} {node : Option FileTree}
  (hleaf : leaf.entries = []) (hplain : ∀ target, leaf ≠ link target)
  (hq : ∀ es, t.node? q ≠ some (directory es)) (hreached : Reached t q)

include hleaf hplain hq hreached

/-- What follows a link leads to the node that was put there as it did before. -/
theorem descend_insert {follow follow' : List Text → List Text → Except SystemCause Place}
    (hf : ∀ at_ names, Reached t at_ → follow at_ names = .ok ⟨q, node⟩ →
      follow' at_ names = .ok ⟨q, some leaf⟩)
    {at_ names : List Text} (hr : Reached t at_)
    (h : descend t follow at_ names = .ok ⟨q, node⟩) :
    descend (t.insert q leaf) follow' at_ names = .ok ⟨q, some leaf⟩ := by
  have hself := node?_insert t q leaf
  have halike : ∀ x, x ≠ q → Alike (t.node? x) ((t.insert q leaf).node? x) :=
    fun x => alike_insert hleaf hq hreached.2
  induction names generalizing at_ with
  | nil =>
      cases h
      rw [descend, hself]
  | cons name rest ih =>
      obtain ⟨es, hes⟩ := exists_directory_of_descend h
      have hne : at_ ≠ q := fun he => hq es (he ▸ hes)
      obtain ⟨es', hes'⟩ := (halike at_ hne).directory hes
      rw [descend_cons hes] at h
      rw [descend_cons hes']
      split at h
      · rename_i hup
        rw [if_pos hup]
        exact ih (reached_dropLast hes) h
      · rename_i hup
        rw [if_neg hup]
        by_cases hx : at_ ++ [name] = q
        · -- Here the node is: no name can be left.
          subst hx
          have hrest : rest = [] := by
            cases rest with
            | nil => rfl
            | cons next rest =>
                split at h
                · rename_i target hlink
                  exact absurd hlink (hreached.1 target)
                · obtain ⟨es'', hes''⟩ := exists_directory_of_descend h
                  exact absurd hes'' (hq es'')
                · cases h
          subst hrest
          rw [hself]
          split
          · rename_i target hlink
            exact absurd (Option.some.inj hlink) (hplain target)
          · rw [descend, hself]
          · rename_i hnone
            cases hnone
        · have hstep := halike _ hx
          split at h
          · rename_i target hlink
            rw [← hstep.eq (by rw [hlink]; rintro es'' ⟨⟩), hlink]
            exact hf _ _ (reached_linkStart hes _) h
          · rename_i below hlink hbelow
            have hr' : Reached t (at_ ++ [name]) := reached_concat hes fun target ht =>
              hlink target (Option.some.inj (hbelow.symm.trans ht))
            have hnext := ih hr' h
            cases below with
            | directory es'' =>
                obtain ⟨es₂, h₂⟩ := hstep.directory hbelow
                rw [h₂]
                exact hnext
            | file content' =>
                rw [← hstep.eq (by rw [hbelow]; rintro es'' ⟨⟩), hbelow]
                exact hnext
            | link target => exact absurd rfl (hlink target)
          · split at h
            · cases h
              exact absurd rfl hx
            · cases h

theorem locateWithin_insert {links : Nat} {at_ names : List Text} (hr : Reached t at_)
    (h : locateWithin t links at_ names = .ok ⟨q, node⟩) :
    locateWithin (t.insert q leaf) links at_ names = .ok ⟨q, some leaf⟩ := by
  induction links generalizing at_ names with
  | zero => cases h
  | succ links ih => exact descend_insert hleaf hplain hq hreached (fun _ _ => ih) hr h

end

/-- Where the root is a link, only the path without names leads anywhere. -/
theorem locateWithin_link {links : Nat} {target : Text} {names : List Text} {place : Place}
    (h : locateWithin (link target) links [] names = .ok place) : names = [] := by
  cases links with
  | zero => cases h
  | succ links =>
      cases names with
      | nil => rfl
      | cons name rest =>
          obtain ⟨es, hes⟩ := exists_directory_of_descend h
          cases hes

theorem locate_insert {t leaf : FileTree} {p : Path} {place : Place} (hleaf : leaf.entries = [])
    (hplain : ∀ target, leaf ≠ link target) (h : t.locate p = .ok place)
    (hn : ∀ es, place.node ≠ some (directory es)) :
    (t.insert place.names leaf).locate p = .ok ⟨place.names, some leaf⟩ := by
  by_cases hroot : ∃ target, t = link target
  · obtain ⟨target, rfl⟩ := hroot
    have hnames := locateWithin_link h
    rw [locate, hnames] at h
    cases h
    rw [locate, hnames]
    rfl
  · have hreached : Reached t [] := ⟨fun target ht => hroot ⟨target, Option.some.inj ht⟩, .inl rfl⟩
    obtain ⟨hnode, hplace⟩ := locateWithin_found hreached h
    rw [hnode] at hn
    exact locateWithin_insert hleaf hplain hn hplace hreached h

/-- What has been written at a path is read there. -/
theorem read_of_write {t t' : FileTree} {p : Path} {content : Bytes}
    (h : t.write p content = .ok t') : t'.read p = .ok content := by
  rw [write] at h
  cases hp : t.locate p with
  | error cause =>
      rw [hp] at h
      cases h
  | ok place =>
      rw [hp] at h
      dsimp only [bind, Except.bind] at h
      split at h
      · cases h
      · rename_i hn
        cases h
        have hfile : ∀ target, file content ≠ link target := fun target ht => by cases ht
        rw [read, locate_insert rfl hfile hp hn]
        rfl

end Marginalia.FileTree
