import TagStamp.FileTree.Resolve
import TagStamp.Proofs.FileTree.Plain
import TagStamp.Proofs.Text.Lines

namespace TagStamp

/-- A name as it is left in a path: it may still be a double dot. -/
structure IsStep (name : String) : Prop where
  nonempty : name ≠ ""
  dot : name ≠ "."
  slash : '/' ∉ name.toList

theorem IsName.isStep {name : String} (h : IsName name) : IsStep name :=
  ⟨h.nonempty, h.dot, h.slash⟩

theorem IsStep.isName {name : String} (h : IsStep name) (hdots : name ≠ "..") : IsName name :=
  ⟨h.nonempty, h.dot, hdots, h.slash⟩

private theorem toList_ne_nil {name : String} (h : name ≠ "") : name.toList ≠ [] := by
  intro hnil
  exact h (String.toList_eq_nil_iff.1 hnil)

namespace Path

theorem isStep_of_mem_parse {s name : String} (h : name ∈ (parse s).names) : IsStep name := by
  obtain ⟨piece, hpiece, rfl⟩ := List.mem_map.1 h
  rw [List.mem_filter, decide_eq_true_eq] at hpiece
  obtain ⟨hmem, hne, hdot⟩ := hpiece
  refine ⟨?_, ?_, ?_⟩
  · intro heq
    exact hne (by simpa using congrArg String.toList heq)
  · intro heq
    exact hdot (by simpa using congrArg String.toList heq)
  · rw [String.toList_ofList]
    exact Text.notMem_of_mem_pieces hmem

/-- The characters that names are written with, slashes between them. -/
def spelled (names : List String) : Text :=
  Text.joined '/' (names.map String.toList)

theorem toList_text_absolute (names : List String) : (absolute names).text.toList = '/' :: spelled names := by
  simp [text, absolute, Anchor.text, spelled]

/-- The names are the pieces of their spelling; no names at all are spelled like one empty piece. -/
theorem pieces_spelled {names : List String} (h : ∀ name ∈ names, IsStep name) :
    (Text.pieces '/' (spelled names)).filter (· ≠ []) = names.map String.toList := by
  cases names with
  | nil => rfl
  | cons name rest =>
    rw [spelled, Text.pieces_joined (by simp), List.filter_eq_self]
    · intro piece hpiece
      obtain ⟨n, hn, rfl⟩ := List.mem_map.1 hpiece
      simpa using (h n hn).nonempty
    · intro piece hpiece
      obtain ⟨n, hn, rfl⟩ := List.mem_map.1 hpiece
      exact (h n hn).slash

theorem spelled_eq_nil_iff {names : List String} (h : ∀ name ∈ names, IsStep name) :
    spelled names = [] ↔ names = [] := by
  constructor
  · intro hnil
    have hpieces := pieces_spelled h
    rw [hnil] at hpieces
    exact List.map_eq_nil_iff.1 hpieces.symm
  · rintro rfl
    rfl

theorem getLast?_slash_cons {text : Text} (h : text ≠ []) : ('/' :: text).getLast? = text.getLast? := by
  cases text with
  | nil => exact absurd rfl h
  | cons c rest => exact List.getLast?_cons_cons

theorem head?_spelled {names : List String} (h : ∀ name ∈ names, IsStep name) :
    (spelled names).head? ≠ some '/' := by
  cases names with
  | nil => simp [spelled, Text.joined]
  | cons name rest =>
    rw [List.forall_mem_cons] at h
    obtain ⟨c, cs, hcs⟩ := List.exists_cons_of_ne_nil (toList_ne_nil h.1.nonempty)
    have hslash := h.1.slash
    rw [hcs] at hslash
    have hhead : (spelled (name :: rest)).head? = some c := by
      cases rest <;> simp [spelled, Text.joined, hcs]
    rw [hhead, ne_eq, Option.some.injEq]
    rintro rfl
    exact hslash List.mem_cons_self

private theorem getLast?_spelled {names : List String} (h : ∀ name ∈ names, IsStep name) :
    (spelled names).getLast? ≠ some '/' := by
  induction names with
  | nil => simp [spelled, Text.joined]
  | cons name rest ih =>
    rw [List.forall_mem_cons] at h
    cases rest with
    | nil =>
      have hslash := h.1.slash
      intro hlast
      exact hslash (List.mem_of_getLast? hlast)
    | cons next rest =>
      have hjoin : spelled (name :: next :: rest) = name.toList ++ '/' :: spelled (next :: rest) := rfl
      have hne : spelled (next :: rest) ≠ [] := fun hnil => by simp [spelled_eq_nil_iff h.2] at hnil
      rw [hjoin, List.getLast?_append, getLast?_slash_cons hne]
      cases hlast : (spelled (next :: rest)).getLast? with
      | none => exact absurd (List.getLast?_eq_none_iff.1 hlast) hne
      | some c =>
        rw [Option.some_or, ← hlast]
        exact ih h.2

theorem pieces_slash_cons (text : Text) : Text.pieces '/' ('/' :: text) = [] :: Text.pieces '/' text := by
  rw [Text.pieces, if_pos rfl]

/-- Names are read back from their spelling. -/
theorem names_spelled {names : List String} (h : ∀ name ∈ names, IsStep name) :
    ((Text.pieces '/' (spelled names)).filter fun name => name ≠ [] ∧ name ≠ ['.']).map String.ofList =
      names := by
  have hsplit : (Text.pieces '/' (spelled names)).filter (fun name => name ≠ [] ∧ name ≠ ['.']) =
      ((Text.pieces '/' (spelled names)).filter (· ≠ [])).filter (· ≠ ['.']) := by
    rw [List.filter_filter]
    congr 1
    funext name
    simp [Bool.and_comm]
  rw [hsplit, pieces_spelled h, List.filter_eq_self.2, List.map_map]
  · simp
  · intro piece hpiece
    obtain ⟨n, hn, rfl⟩ := List.mem_map.1 hpiece
    have hdot := (h n hn).dot
    rw [decide_eq_true_eq]
    intro heq
    exact hdot (by rw [← String.ofList_toList (s := n), heq])

/-- The text of a path begins with its anchor; only the path of no names has a text of its own. -/
theorem toList_text (p : Path) :
    p.text.toList = if p.anchor = .relative ∧ p.names = [] then ['.']
      else p.anchor.text.toList ++ spelled p.names := by
  unfold text
  split
  · rfl
  · simp [spelled]

theorem names_parse_text {p : Path} (h : ∀ name ∈ p.names, IsStep name) : (parse p.text).names = p.names := by
  have hnames := names_spelled h
  rw [parse, toList_text]
  obtain ⟨anchor, names⟩ := p
  cases anchor with
  | relative =>
    by_cases hempty : names = []
    · subst hempty
      rfl
    · simpa [hempty, Anchor.text] using hnames
  | root => simpa [Anchor.text, pieces_slash_cons] using hnames
  | doubleRoot => simpa [Anchor.text, pieces_slash_cons] using hnames

theorem head?_text {p : Path} (h : ∀ name ∈ p.names, IsStep name) :
    p.text.toList.head? = some '/' ↔ p.anchor ≠ .relative := by
  have hspelled := head?_spelled h
  rw [toList_text]
  obtain ⟨anchor, names⟩ := p
  cases anchor with
  | relative => by_cases hempty : names = [] <;> simp_all [Anchor.text]
  | root => simp [Anchor.text]
  | doubleRoot => simp [Anchor.text]

theorem parse_text_absolute {names : List String} (h : ∀ name ∈ names, IsStep name) :
    parse (absolute names).text = absolute names := by
  have hanchor : anchorOf ('/' :: spelled names) = .root := by
    have hhead := head?_spelled h
    cases hspelled : spelled names with
    | nil => rfl
    | cons c rest =>
      rw [hspelled] at hhead
      unfold anchorOf
      split <;> simp_all
  have hnames := names_parse_text (p := absolute names) h
  rw [parse, toList_text_absolute, hanchor]
  rw [parse, toList_text_absolute] at hnames
  exact congrArg (Path.mk .root) hnames

theorem text_absolute_inj {a b : List String} (ha : ∀ name ∈ a, IsStep name) (hb : ∀ name ∈ b, IsStep name)
    (h : (absolute a).text = (absolute b).text) : a = b := by
  have hparse := congrArg parse h
  rw [parse_text_absolute ha, parse_text_absolute hb] at hparse
  exact (Path.mk.inj hparse).2

theorem route_absolute {names : List String} (h : ∀ name ∈ names, IsStep name) :
    Route.parse (absolute names).text = ⟨true, names, names = []⟩ := by
  have hnames : ((Text.pieces '/' ('/' :: spelled names)).filter (· ≠ [])).map String.ofList = names := by
    rw [pieces_slash_cons, List.filter_cons_of_neg (by simp), pieces_spelled h, List.map_map]
    simp
  have hslash : (('/' :: spelled names).getLast? = some '/') ↔ names = [] := by
    constructor
    · intro hlast
      by_contra hne
      have hspelled : spelled names ≠ [] := fun hnil => hne ((spelled_eq_nil_iff h).1 hnil)
      rw [getLast?_slash_cons hspelled] at hlast
      exact getLast?_spelled h hlast
    · rintro rfl
      rfl
  rw [Route.parse, toList_text_absolute, hnames]
  simp only [List.head?_cons, decide_true, hslash]

/-- The place that a path means from a directory, if there are no links on the way. -/
def destination (p : Path) (directory : Location) : Location :=
  descend (if p.anchor = .relative then directory else []) p.names

end Path

theorem descend_append (place : Location) (a b : List String) :
    descend place (a ++ b) = descend (descend place a) b := by
  induction a generalizing place with
  | nil => rfl
  | cons name rest ih =>
    simp only [List.cons_append, descend]
    split
    · exact ih place
    · split <;> exact ih _

/-- Proper names lead straight down. -/
theorem descend_of_isName {names : List String} (h : ∀ name ∈ names, IsName name) (place : Location) :
    descend place names = place ++ names := by
  induction names generalizing place with
  | nil => simp [descend]
  | cons name rest ih =>
    rw [List.forall_mem_cons] at h
    rw [descend, if_neg h.1.dot, if_neg h.1.dots, ih h.2]
    simp

private theorem isName_of_mem_descend {names : List String} {place : Location} (hplace : ∀ name ∈ place, IsName name)
    (hnames : ∀ name ∈ names, IsStep name) : ∀ name ∈ descend place names, IsName name := by
  induction names generalizing place with
  | nil => exact hplace
  | cons name rest ih =>
    rw [List.forall_mem_cons] at hnames
    rw [descend, if_neg hnames.1.dot]
    split
    · exact ih (fun n hn => hplace n (List.mem_of_mem_dropLast hn)) hnames.2
    · next hdots =>
      apply ih _ hnames.2
      intro n hn
      rw [List.mem_append, List.mem_singleton] at hn
      obtain hn | rfl := hn
      · exact hplace n hn
      · exact hnames.1.isName hdots

theorem Path.isName_of_mem_destination {p : Path} {directory : Location}
    (hp : ∀ name ∈ p.names, IsStep name) (hdirectory : ∀ name ∈ directory, IsName name) :
    ∀ name ∈ p.destination directory, IsName name := by
  apply isName_of_mem_descend _ hp
  split
  · exact hdirectory
  · simp

theorem Path.destination_absolute {place directory : Location} (hplace : ∀ name ∈ place, IsName name) :
    (Path.absolute place).destination directory = place := by
  rw [Path.destination, if_neg (by simp [Path.absolute]), Path.absolute, descend_of_isName hplace, List.nil_append]

/-- A path that is named from a directory means what it means there. -/
theorem Path.destination_join {q : Path} {base directory : Location} (hbase : ∀ name ∈ base, IsName name) :
    ((Path.absolute base).join q).destination directory = q.destination base := by
  unfold Path.join Path.destination
  split
  · next hrelative =>
    rw [if_neg (by simp [Path.absolute]), Path.absolute, descend_append, descend_of_isName hbase]
    rfl
  · rfl

end TagStamp
