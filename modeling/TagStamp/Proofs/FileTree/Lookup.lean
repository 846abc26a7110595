import TagStamp.Proofs.Path.Spelling

namespace TagStamp

/-- Whether a walk ended without a link and without a complaint about links. -/
def Walk.isUnlinked : Walk → Bool
  | .found _ entry => !entry.isLink
  | .free _ _ => true
  | .refused error => error ≠ .tooManyLinks

namespace FileTree

/-- Names that can be gone along from a directory: none is too long, and all but the last are directories
again. -/
def OpenTo (t : FileTree) (place : Location) : List String → Prop
  | [] => True
  | name :: rest => name.utf8ByteSize ≤ nameLimit ∧ (rest ≠ [] → t.get? (place ++ [name]) = some .directory) ∧
      t.OpenTo (place ++ [name]) rest

/-- The absolute path of a place can be looked up. -/
def Leads (t : FileTree) (place : Location) : Prop :=
  (Path.absolute place).text.utf8ByteSize ≤ pathLimit ∧ t.OpenTo [] place

variable {t t' : FileTree} {aim : Aim} {follow : Standpoint → List String → Bool → Walk}
  {place directory : Location} {names : List String} {here : Standpoint} {entry : Entry} {name : String}

theorem OpenTo.mono (h : t.OpenTo place names)
    (hkept : ∀ other, other <+: place ++ names → t.get? other = some .directory →
      t'.get? other = some .directory) : t'.OpenTo place names := by
  induction names generalizing place with
  | nil => exact trivial
  | cons name rest ih =>
    have hsplit : place ++ name :: rest = place ++ [name] ++ rest := by simp
    rw [hsplit] at hkept
    exact ⟨h.1, fun hrest => hkept _ (List.prefix_append _ _) (h.2.1 hrest), ih h.2.2 hkept⟩

/-- A path stays open as long as the directories along it stay. -/
theorem Leads.mono (h : t.Leads place)
    (hkept : ∀ other, other <+: place → t.get? other = some .directory → t'.get? other = some .directory) :
    t'.Leads place :=
  ⟨h.1, h.2.mono hkept⟩

/-- One step of a walk along proper names in a tree without links. -/
theorem walkWith_cons (ht : t.Linkless) (hname : IsName name) (rest : List String) :
    t.walkWith aim false follow ⟨place, 0⟩ (name :: rest) =
      if nameLimit < name.utf8ByteSize then .refused .nameTooLong
      else match t.get? (place ++ [name]) with
        | none => if rest = [] then .free place name else .refused .noEntry
        | some .directory => t.walkWith aim false follow ⟨place ++ [name], 0⟩ rest
        | some entry => if rest = [] then .found ⟨place ++ [name], 0⟩ entry else .refused .notDirectory := by
  rw [walkWith, if_neg hname.dot, if_neg hname.dots]
  cases hget : t.get? (place ++ [name]) with
  | none => by_cases hrest : rest = [] <;> simp [Standpoint.isLost, hrest]
  | some entry =>
    cases entry with
    | directory => simp [Standpoint.isLost]
    | file content => by_cases hrest : rest = [] <;> simp [Standpoint.isLost, hrest]
    | link target => exact absurd hget (ht _ target)

private theorem walkWith_eq_found_iff (ht : t.Linkless) (hnames : ∀ name ∈ names, IsName name)
    (hplace : t.get? place = some .directory) :
    t.walkWith aim false follow ⟨place, 0⟩ names = .found here entry ↔
      t.OpenTo place names ∧ here = ⟨place ++ names, 0⟩ ∧ t.get? (place ++ names) = some entry := by
  induction names generalizing place with
  | nil =>
    simp only [walkWith, OpenTo, List.append_nil, hplace, Walk.found.injEq, Option.some.injEq, true_and]
    exact and_congr_left' eq_comm
  | cons name rest ih =>
    rw [List.forall_mem_cons] at hnames
    rw [walkWith_cons ht hnames.1, OpenTo]
    by_cases hlong : nameLimit < name.utf8ByteSize
    · simp [hlong, Nat.not_le_of_lt hlong]
    have hsplit : place ++ name :: rest = place ++ [name] ++ rest := by simp
    simp only [if_neg hlong, Nat.le_of_not_lt hlong, true_and, hsplit]
    cases hget : t.get? (place ++ [name]) with
    | none => by_cases hrest : rest = [] <;> simp [hrest, hget]
    | some found =>
      cases found with
      | directory => simp [ih hnames.2 hget]
      | file content =>
        by_cases hrest : rest = []
        · simp only [hrest, if_true, Walk.found.injEq, List.append_nil, hget, Option.some.injEq, ne_eq,
            not_true_eq_false, false_imp_iff, OpenTo, true_and]
          exact and_congr_left' eq_comm
        · simp [hrest]
      | link target => exact absurd hget (ht _ target)

private theorem walkWith_eq_free_iff (ht : t.Linkless) (hnames : ∀ name ∈ names, IsName name)
    (hplace : t.get? place = some .directory) :
    t.walkWith aim false follow ⟨place, 0⟩ names = .free directory name ↔
      t.OpenTo place names ∧ directory ++ [name] = place ++ names ∧ t.get? (place ++ names) = none := by
  induction names generalizing place with
  | nil => simp [walkWith, hplace]
  | cons first rest ih =>
    rw [List.forall_mem_cons] at hnames
    rw [walkWith_cons ht hnames.1, OpenTo]
    by_cases hlong : nameLimit < first.utf8ByteSize
    · simp [hlong, Nat.not_le_of_lt hlong]
    have hsplit : place ++ first :: rest = place ++ [first] ++ rest := by simp
    simp only [if_neg hlong, Nat.le_of_not_lt hlong, true_and, hsplit]
    cases hget : t.get? (place ++ [first]) with
    | none =>
      by_cases hrest : rest = []
      · simp only [hrest, if_true, Walk.free.injEq, List.append_nil, hget, ne_eq, not_true_eq_false,
          false_imp_iff, OpenTo, true_and, and_true, List.append_singleton_inj]
        exact and_congr eq_comm eq_comm
      · simp [hrest]
    | some found =>
      cases found with
      | directory => simp [ih hnames.2 hget]
      | file content => by_cases hrest : rest = [] <;> simp [hrest, hget]
      | link target => exact absurd hget (ht _ target)

/-- A walk without links does not end at one, nor is it refused for too many of them. -/
theorem isUnlinked_walkWith (ht : t.Linkless) (slash : Bool) (here : Standpoint) (names : List String) :
    (t.walkWith aim slash follow here names).isUnlinked = true := by
  induction names generalizing here with
  | nil => simp [walkWith, Walk.isUnlinked, Entry.isLink]
  | cons name rest ih =>
    rw [walkWith]
    split
    · exact ih here
    split
    · exact ih here.up
    split
    · rfl
    split
    · rfl
    split
    · rfl
    cases hget : t.get? (here.place ++ [name]) with
    | none =>
      simp only
      split <;> rfl
    | some entry =>
      cases entry with
      | directory => exact ih _
      | file content =>
        simp only
        split <;> rfl
      | link target => exact absurd hget (ht _ target)

theorem walk_eq_walkWith (t : FileTree) (aim : Aim) (links : Nat) :
    ∃ follow, ∀ start names slash, t.walk aim links start names slash = t.walkWith aim slash follow start names := by
  cases links with
  | zero => exact ⟨_, fun _ _ _ => rfl⟩
  | succ links => exact ⟨_, fun _ _ _ => rfl⟩

theorem isUnlinked_locate (ht : t.Linkless) (standpoint : Standpoint) (path : String) :
    (t.locate standpoint aim path).isUnlinked = true := by
  obtain ⟨follow, hwalk⟩ := walk_eq_walkWith t aim linkLimit
  rw [locate]
  split
  · rfl
  split
  · rfl
  rw [hwalk]
  exact isUnlinked_walkWith ht _ _ _

theorem linkAt_eq_none (ht : t.Linkless) (standpoint : Standpoint) (path : Path) :
    t.linkAt standpoint path = none := by
  have hunlinked : (t.locate standpoint .entry path.text).isUnlinked = true := isUnlinked_locate ht _ _
  unfold linkAt
  split
  · next here target hfound =>
    rw [hfound] at hunlinked
    cases hunlinked
  · rfl

/-- A look-up of an absolute path is a walk down from the root. -/
theorem locate_absolute (t : FileTree) (aim : Aim) (hnames : ∀ name ∈ names, IsName name) (standpoint : Standpoint) :
    ∃ follow, t.locate standpoint aim (Path.absolute names).text =
      if pathLimit < (Path.absolute names).text.utf8ByteSize then .refused .nameTooLong
      else t.walkWith aim (names = []) follow .root names := by
  obtain ⟨follow, hwalk⟩ := walk_eq_walkWith t aim linkLimit
  refine ⟨follow, ?_⟩
  have hempty : (Path.absolute names).text.isEmpty = false := by
    rw [String.isEmpty_eq_false_iff]
    intro hnil
    simpa [hnil] using Path.toList_text_absolute names
  rw [locate, Path.route_absolute fun name hname => (hnames name hname).isStep, hempty]
  simp only [Bool.false_eq_true, if_false, if_true, hwalk]

theorem locate_eq_found_iff (ht : t.Linkless) (hnames : ∀ name ∈ names, IsName name) {standpoint : Standpoint} :
    t.locate standpoint aim (Path.absolute names).text = .found here entry ↔
      t.Leads names ∧ here = ⟨names, 0⟩ ∧ t.get? names = some entry := by
  obtain ⟨follow, hlocate⟩ := locate_absolute t aim hnames standpoint
  rw [hlocate, Leads]
  by_cases hlong : pathLimit < (Path.absolute names).text.utf8ByteSize
  · simp [hlong, Nat.not_le_of_lt hlong]
  rw [if_neg hlong]
  simp only [Nat.le_of_not_lt hlong, true_and]
  cases names with
  | nil =>
    simp only [walkWith, Standpoint.root, Walk.found.injEq, OpenTo, true_and, get?_root, Option.some.injEq]
    exact and_congr_left' eq_comm
  | cons name rest =>
    have hwalk : t.walkWith aim false follow .root (name :: rest) = .found here entry ↔ _ :=
      walkWith_eq_found_iff ht hnames (get?_root t)
    simpa using hwalk

theorem locate_eq_free_iff (ht : t.Linkless) (hnames : ∀ name ∈ names, IsName name) {standpoint : Standpoint} :
    t.locate standpoint aim (Path.absolute names).text = .free directory name ↔
      t.Leads names ∧ directory ++ [name] = names ∧ t.get? names = none := by
  obtain ⟨follow, hlocate⟩ := locate_absolute t aim hnames standpoint
  rw [hlocate, Leads]
  by_cases hlong : pathLimit < (Path.absolute names).text.utf8ByteSize
  · simp [hlong, Nat.not_le_of_lt hlong]
  rw [if_neg hlong]
  simp only [Nat.le_of_not_lt hlong, true_and]
  cases names with
  | nil => simp [walkWith]
  | cons first rest =>
    have hwalk : t.walkWith aim false follow .root (first :: rest) = .free directory name ↔ _ :=
      walkWith_eq_free_iff ht hnames (get?_root t)
    simpa using hwalk

end FileTree

end TagStamp
