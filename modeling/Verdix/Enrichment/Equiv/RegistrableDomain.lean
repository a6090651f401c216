import Verdix.Enrichment.Rdap
import Verdix.Lib.Split

/-!
# The registrable domain

`_normalise_domain` on the labels of a name: `normaliseDomain_eq`.  A leading "www" goes first, also
where it is the registrable label itself, and what is kept of a longer name can start with another
one.  `normalised_iff` says for which names the result is a name of at least two labels that is
normalised already.
-/

namespace Verdix.Rdap

variable {lib : Library} {domain : String} {labels : List String}

/-! ### Domain names -/

/-- A label is not empty and holds neither dots nor white space. -/
def IsLabel (label : String) : Prop :=
  label ≠ "" ∧ ∀ c ∈ label.toList, c ≠ '.' ∧ PyStr.isSpace c = false

/-- The labels of a domain name with a public suffix. -/
structure DomainName where
  labels : List String
  two_le_length : 2 ≤ labels.length
  isLabel : ∀ label ∈ labels, IsLabel label

/-- `".".join(labels)`. -/
def join (labels : List String) : String := ".".intercalate labels

/-- The name that the last labels spell. -/
def DomainName.last (name : DomainName) (h : labels <:+ name.labels) (htwo : 2 ≤ labels.length) :
    DomainName where
  labels := labels
  two_le_length := htwo
  isLabel := fun label hlabel => name.isLabel label (h.subset hlabel)

theorem DomainName.labels_ne_nil (name : DomainName) : name.labels ≠ [] :=
  List.ne_nil_of_length_pos (Nat.lt_of_lt_of_le (by decide) name.two_le_length)

/-! ### Joining and splitting -/

theorem toList_join_cons (label : String) (hnil : labels ≠ []) :
    (join (label :: labels)).toList = label.toList ++ '.' :: (join labels).toList := by
  cases labels with
  | nil => exact absurd rfl hnil
  | cons next labels =>
    rw [join, join, String.toList_intercalate, String.toList_intercalate]
    rfl

section Join

variable (hlabels : ∀ label ∈ labels, IsLabel label)

include hlabels

/-- Labels without dots are found again between the dots. -/
theorem splitOn_join (hnil : labels ≠ []) :
    (join labels).toList.splitOn '.' = labels.map String.toList := by
  have hpieces : ∀ piece ∈ labels.map String.toList, '.' ∉ piece := by
    intro piece hpiece
    obtain ⟨label, hlabel, rfl⟩ := List.mem_map.mp hpiece
    exact fun hc => ((hlabels label hlabel).2 '.' hc).1 rfl
  rw [join, String.toList_intercalate]
  exact List.splitOn_intercalate '.' hpieces (by simpa using hnil)

theorem split_join (hnil : labels ≠ []) : PyStr.split '.' (join labels) = labels := by
  rw [PyStr.split, splitOn_join hlabels hnil, List.map_map]
  exact List.map_id'' (fun label => String.ofList_toList) labels

theorem mem_join (hnil : labels ≠ []) {c : Char} (hc : c ∈ (join labels).toList) :
    c = '.' ∨ ∃ label ∈ labels, c ∈ label.toList := by
  apply (Split.eq_or_mem_splitOn (a := '.') hc).imp_right
  rintro ⟨piece, hpiece, hmem⟩
  rw [splitOn_join hlabels hnil] at hpiece
  obtain ⟨label, hlabel, rfl⟩ := List.mem_map.mp hpiece
  exact ⟨label, hlabel, hmem⟩

/-- The last label is not empty, so the name does not end with a dot. -/
theorem rdropWhile_join (hnil : labels ≠ []) :
    (join labels).toList.rdropWhile (· == '.') = (join labels).toList := by
  rw [List.rdropWhile_eq_self_iff]
  intro hl hlast
  have hend : (join labels).toList = (join labels).toList.dropLast ++ ['.'] := by
    rw [← eq_of_beq hlast, List.dropLast_append_getLast hl]
  have hsplit := splitOn_join hlabels hnil
  rw [hend, List.splitOn_append_cons_self, List.splitOn_nil] at hsplit
  have hmem : [] ∈ labels.map String.toList := by
    rw [← hsplit]
    exact List.mem_append_right _ (List.mem_singleton_self [])
  obtain ⟨label, hlabel, hchars⟩ := List.mem_map.mp hmem
  exact (hlabels label hlabel).1 (String.toList_eq_nil_iff.mp hchars)

/-- The first label is what stands before the first dot. -/
theorem startswith_www_iff (hlength : 2 ≤ labels.length) :
    PyStr.startswith (join labels) "www." = true ↔ labels.head? = some "www" := by
  have hnil : labels ≠ [] := List.ne_nil_of_length_pos (by omega)
  rw [PyStr.startswith, List.isPrefixOf_iff_prefix]
  constructor
  · rintro ⟨rest, hrest⟩
    have hsplit := splitOn_join hlabels hnil
    rw [← hrest, show "www.".toList = "www".toList ++ ['.'] by decide, List.append_assoc,
      List.singleton_append, List.splitOn_append_cons_self_of_not_mem (by decide)] at hsplit
    cases labels with
    | nil => exact absurd rfl hnil
    | cons label labels =>
      rw [List.map_cons] at hsplit
      rw [List.head?_cons, String.toList_injective (List.cons.inj hsplit).1.symm]
  · intro hhead
    obtain ⟨rest, rfl⟩ := List.head?_eq_some_iff.mp hhead
    have hrest : rest ≠ [] := List.ne_nil_of_length_pos (Nat.le_of_succ_le_succ hlength)
    rw [toList_join_cons "www" hrest]
    exact ⟨(join rest).toList, rfl⟩

end Join

theorem split_injective {s t : String} (h : PyStr.split '.' s = PyStr.split '.' t) : s = t := by
  have hpieces : s.toList.splitOn '.' = t.toList.splitOn '.' :=
    (List.map_injective_iff.mpr fun _ _ => String.ofList_injective) h
  apply String.toList_injective
  calc s.toList = ['.'].intercalate (s.toList.splitOn '.') := (List.intercalate_splitOn '.').symm
    _ = t.toList := by rw [hpieces, List.intercalate_splitOn]

/-! ### Normalising -/

/-- A leading "www" is taken away. -/
def stripWww (labels : List String) : List String :=
  if labels.head? = some "www" then labels.tail else labels

def lastLabels (n : ℕ) (labels : List String) : List String := labels.drop (labels.length - n)

/-- Three labels with a compound suffix, else two. -/
def keepLast (labels : List String) : List String :=
  if labels.length ≤ 2 then labels
  else if join (lastLabels 2 labels) ∈ compound then lastLabels 3 labels
  else lastLabels 2 labels

/-- The labels of what `_normalise_domain` returns. -/
def registrable (labels : List String) : List String := keepLast (stripWww labels)

theorem stripWww_suffix (labels : List String) : stripWww labels <:+ labels := by
  unfold stripWww
  split
  · exact List.tail_suffix labels
  · exact List.suffix_rfl

theorem length_stripWww (labels : List String) : labels.length ≤ (stripWww labels).length + 1 := by
  unfold stripWww
  split
  · rw [List.length_tail]
    omega
  · omega

theorem keepLast_suffix (labels : List String) : keepLast labels <:+ labels := by
  unfold keepLast
  split
  · exact List.suffix_rfl
  · split
    · exact List.drop_suffix _ labels
    · exact List.drop_suffix _ labels

/-- What is kept are last labels of the name. -/
theorem registrable_suffix (labels : List String) : registrable labels <:+ labels :=
  (keepLast_suffix _).trans (stripWww_suffix labels)

theorem length_keepLast (labels : List String) :
    labels.length ≤ (keepLast labels).length ∨ 2 ≤ (keepLast labels).length := by
  unfold keepLast lastLabels
  split
  · omega
  · split
    · rw [List.length_drop]
      omega
    · rw [List.length_drop]
      omega

/-- Of two labels or more, one is kept at least. -/
theorem registrable_ne_nil (hlength : 2 ≤ labels.length) : registrable labels ≠ [] := by
  have hstrip := length_stripWww labels
  have hkeep := length_keepLast (stripWww labels)
  apply List.ne_nil_of_length_pos
  unfold registrable
  omega

theorem strip_eq_self {s : String} (h : ∀ c ∈ s.toList, PyStr.isSpace c = false) :
    PyStr.strip s = s := by
  have hleft : s.toList.dropWhile PyStr.isSpace = s.toList := by
    rw [List.dropWhile_eq_self_iff]
    intro hl
    rw [h _ (List.getElem_mem hl)]
    decide
  have hright : s.toList.rdropWhile PyStr.isSpace = s.toList := by
    rw [List.rdropWhile_eq_self_iff]
    intro hl
    rw [h _ (List.getLast_mem hl)]
    decide
  rw [PyStr.strip, hleft]
  show String.ofList (s.toList.rdropWhile PyStr.isSpace) = s
  rw [hright, String.ofList_toList]

theorem DomainName.rstrip_join (name : DomainName) :
    PyStr.rstrip '.' (join name.labels) = join name.labels := by
  rw [PyStr.rstrip]
  show String.ofList ((join name.labels).toList.rdropWhile (· == '.')) = join name.labels
  rw [rdropWhile_join name.isLabel name.labels_ne_nil, String.ofList_toList]

/-- Trailing dots are not part of the name. -/
theorem rstrip_strip_join (name : DomainName) {s : String} {dots : ℕ}
    (h : s.toList = (join name.labels).toList ++ List.replicate dots '.') :
    PyStr.rstrip '.' (PyStr.strip s) = join name.labels := by
  have hspace : ∀ c ∈ s.toList, PyStr.isSpace c = false := by
    intro c hc
    rw [h, List.mem_append] at hc
    rcases hc with hc | hc
    · rcases mem_join name.isLabel name.labels_ne_nil hc with rfl | ⟨label, hlabel, hmem⟩
      · decide
      · exact ((name.isLabel label hlabel).2 c hmem).2
    · rw [List.eq_of_mem_replicate hc]
      decide
  rw [strip_eq_self hspace, PyStr.rstrip]
  show String.ofList (s.toList.rdropWhile (· == '.')) = join name.labels
  have hdots : ∀ c ∈ List.replicate dots '.', (c == '.') = true := by
    intro c hc
    rw [List.eq_of_mem_replicate hc]
    decide
  rw [h, Split.rdropWhile_append_of_all hdots,
    rdropWhile_join name.isLabel name.labels_ne_nil, String.ofList_toList]

/-- What `_normalise_domain` returns, by its labels. -/
theorem normaliseDomain_eq (name : DomainName) {dots : ℕ}
    (h : (lib.lower domain).toList = (join name.labels).toList ++ List.replicate dots '.') :
    normaliseDomain lib domain = join (registrable name.labels) := by
  have hwww : (if PyStr.startswith (join name.labels) "www." then
      String.ofList ((join name.labels).toList.drop 4) else join name.labels)
        = join (stripWww name.labels) := by
    have hiff := startswith_www_iff name.isLabel name.two_le_length
    unfold stripWww
    by_cases hhead : name.labels.head? = some "www"
    · rw [if_pos (hiff.mpr hhead), if_pos hhead]
      obtain ⟨rest, hlabels⟩ := List.head?_eq_some_iff.mp hhead
      have hrest : rest ≠ [] := by
        have htwo := name.two_le_length
        rw [hlabels, List.length_cons] at htwo
        exact List.ne_nil_of_length_pos (by omega)
      rw [hlabels, toList_join_cons "www" hrest]
      exact String.ofList_toList
    · rw [if_neg fun hstart => hhead (hiff.mp hstart), if_neg hhead]
  have hsplit : PyStr.split '.' (join (stripWww name.labels)) = stripWww name.labels := by
    apply split_join fun label hlabel =>
      name.isLabel label ((stripWww_suffix name.labels).subset hlabel)
    have hstrip := length_stripWww name.labels
    have htwo := name.two_le_length
    exact List.ne_nil_of_length_pos (by omega)
  unfold normaliseDomain
  simp only [rstrip_strip_join name h, hwww, hsplit]
  rw [registrable, keepLast, apply_ite join, apply_ite join]
  rfl

/-! ### Names that are normalised already -/

/-- No public suffix of the table stands behind a "www". -/
theorem ne_www_of_mem_compound {label tld : String} (h : join [label, tld] ∈ compound) :
    label ≠ "www" := by
  rintro rfl
  have hnone : ∀ s ∈ compound, PyStr.startswith s "www." = false := by decide +kernel
  have hstart : PyStr.startswith (join ["www", tld]) "www." = true := by
    rw [PyStr.startswith, List.isPrefixOf_iff_prefix, toList_join_cons "www" (by simp)]
    exact ⟨(join [tld]).toList, rfl⟩
  rw [hnone _ h] at hstart
  exact absurd hstart (by decide)

/-- "www" is not the label before the top-level domain, and in a name of four labels and more it
does not stand before a compound suffix. -/
def NoWwwKept (labels : List String) : Prop :=
  match labels.reverse with
  | tld :: label :: rest =>
    label ≠ "www" ∧ (join [label, tld] ∈ compound → rest.head? = some "www" → rest.length = 1)
  | _ => True

/-- The last two labels are kept, and the third where the two form a compound suffix. -/
theorem keepLast_append (init : List String) (x y z : String) :
    keepLast (init ++ [x, y, z]) = if join [y, z] ∈ compound then [x, y, z] else [y, z] := by
  have htwo : lastLabels 2 (init ++ [x, y, z]) = [y, z] := by
    rw [lastLabels, show init ++ [x, y, z] = (init ++ [x]) ++ [y, z] by simp]
    exact List.drop_left' (by simp)
  have hthree : lastLabels 3 (init ++ [x, y, z]) = [x, y, z] := List.drop_left' (by simp)
  rw [keepLast, if_neg (by simp), htwo, hthree]

/-- Of two labels, a leading `www` is dropped. -/
theorem registrable_pair {y z : String} :
    registrable [y, z] = if y = "www" then [z] else [y, z] := by
  unfold registrable stripWww
  by_cases hy : y = "www"
  · rw [if_pos (by rw [hy]; rfl), if_pos hy]
    rfl
  · rw [if_neg (by simpa using hy), if_neg hy]
    rfl

/-- Of three labels without a leading `www`, two or three are kept. -/
theorem registrable_triple {x y z : String} (hx : x ≠ "www") :
    registrable [x, y, z] = if join [y, z] ∈ compound then [x, y, z] else [y, z] := by
  rw [registrable, stripWww, if_neg (by simpa using hx)]
  exact keepLast_append [] x y z

theorem registrable_www {y z : String} : registrable ["www", y, z] = [y, z] := rfl

/-- From four labels on, a leading "www" stands before what is kept. -/
theorem registrable_long {w x y z : String} (init : List String) :
    registrable (w :: init ++ [x, y, z]) =
      if join [y, z] ∈ compound then [x, y, z] else [y, z] := by
  unfold registrable stripWww
  split
  · exact keepLast_append init x y z
  · exact keepLast_append (w :: init) x y z

/-- At least two labels are kept, and of these none is taken away. -/
def Fixed (labels : List String) : Prop :=
  2 ≤ (registrable labels).length ∧ registrable (registrable labels) = registrable labels

theorem fixed_of_eq_pair {y z : String} (h : registrable labels = [y, z]) :
    Fixed labels ↔ y ≠ "www" := by
  unfold Fixed
  rw [h, registrable_pair]
  by_cases hy : y = "www"
  · simp [hy]
  · simp [hy]

theorem fixed_of_eq_triple {x y z : String} (h : registrable labels = [x, y, z])
    (hcompound : join [y, z] ∈ compound) : Fixed labels ↔ x ≠ "www" := by
  unfold Fixed
  rw [h]
  by_cases hx : x = "www"
  · rw [hx, registrable_www]
    simp
  · rw [registrable_triple hx, if_pos hcompound]
    simp [hx]

theorem fixed_of_eq_ite {x y z : String}
    (h : registrable labels = if join [y, z] ∈ compound then [x, y, z] else [y, z]) :
    Fixed labels ↔ y ≠ "www" ∧ (join [y, z] ∈ compound → x ≠ "www") := by
  by_cases hcompound : join [y, z] ∈ compound
  · rw [if_pos hcompound] at h
    rw [fixed_of_eq_triple h hcompound]
    exact ⟨fun hx => ⟨ne_www_of_mem_compound hcompound, fun _ => hx⟩, fun h => h.2 hcompound⟩
  · rw [if_neg hcompound] at h
    rw [fixed_of_eq_pair h]
    exact ⟨fun hy => ⟨hy, fun hmem => absurd hmem hcompound⟩, And.left⟩

theorem noWwwKept_append {init : List String} {y z : String} :
    NoWwwKept (init ++ [y, z]) ↔ y ≠ "www" ∧
      (join [y, z] ∈ compound → init.getLast? = some "www" → init.length = 1) := by
  rw [NoWwwKept, List.reverse_append]
  show _ ∧ (_ → init.reverse.head? = some "www" → init.reverse.length = 1) ↔ _
  rw [List.head?_reverse, List.length_reverse]

theorem exists_two_last (hlength : 2 ≤ labels.length) :
    ∃ init y z, labels = init ++ [y, z] := by
  have hsplit := List.take_append_drop (labels.length - 2) labels
  obtain ⟨y, z, hlast⟩ : ∃ y z, labels.drop (labels.length - 2) = [y, z] := by
    apply List.length_eq_two.mp
    rw [List.length_drop]
    omega
  rw [hlast] at hsplit
  exact ⟨_, y, z, hsplit.symm⟩

/-- What is kept stays two labels or more, and the same, iff no `www` is left in front of it. -/
theorem fixed_iff (hlength : 2 ≤ labels.length) : Fixed labels ↔ NoWwwKept labels := by
  obtain ⟨init, y, z, rfl⟩ := exists_two_last hlength
  rw [noWwwKept_append]
  rcases List.eq_nil_or_concat init with rfl | ⟨init, x, rfl⟩
  · -- two labels
    rw [List.nil_append, Fixed, registrable_pair]
    by_cases hy : y = "www"
    · simp [hy]
    · simp [hy, registrable_pair]
  rw [List.concat_eq_append, List.getLast?_concat, List.length_append, List.length_singleton,
    List.append_assoc, Option.some_inj]
  cases init with
  | nil =>
    -- of three labels the first may be "www"
    by_cases hx : x = "www"
    · rw [hx]
      simpa using fixed_of_eq_pair registrable_www
    · rw [List.nil_append, List.singleton_append, fixed_of_eq_ite (registrable_triple hx)]
      simp [hx]
  | cons w init =>
    rw [List.singleton_append, fixed_of_eq_ite (registrable_long init)]
    simp

/-! ### The claim of the docstring -/

/-- What `str.lower` returns is lower-cased, and so is every part of it. -/
def LowerFixes (lower : String → String) : Prop :=
  ∀ s t : String, t.toList <:+: (lower s).toList → lower t = t

/-- Of a name that `str.lower` has lower-cased, a part is left that is lower-cased, has a top-level
domain and is normalised already. -/
structure Normalised (lib : Library) (domain : String) (name : DomainName) : Prop where
  suffix : PyStr.split '.' (normaliseDomain lib domain) <:+ name.labels
  two_le : 2 ≤ (PyStr.split '.' (normaliseDomain lib domain)).length
  again : normaliseDomain lib (normaliseDomain lib domain) = normaliseDomain lib domain
  tld : RdapBootstrap.extractTld lib.lower (normaliseDomain lib domain) = name.labels.getLast?

/-- Last labels make a text that ends the name. -/
theorem join_suffix {all : List String} (h : labels <:+ all) (hnil : labels ≠ []) :
    (join labels).toList <:+ (join all).toList := by
  obtain ⟨before, rfl⟩ := h
  induction before with
  | nil => exact List.suffix_rfl
  | cons label before ih =>
    rw [List.cons_append, toList_join_cons label (by simp [hnil])]
    exact ih.trans ((List.suffix_cons '.' _).trans (List.suffix_append _ _))

/-- `_normalise_domain` keeps its promise for a name exactly when no "www" is kept. -/
theorem normalised_iff (hlower : LowerFixes lib.lower) (name : DomainName) (dots : ℕ)
    (h : (lib.lower domain).toList = (join name.labels).toList ++ List.replicate dots '.') :
    Normalised lib domain name ↔ NoWwwKept name.labels := by
  rw [← fixed_iff name.two_le_length]
  have hresult := normaliseDomain_eq name h
  have hsuffix := registrable_suffix name.labels
  have hnil := registrable_ne_nil name.two_le_length
  have hsplit : PyStr.split '.' (normaliseDomain lib domain) = registrable name.labels := by
    rw [hresult]
    exact split_join (fun label hlabel => name.isLabel label (hsuffix.subset hlabel)) hnil
  -- the result is lower-cased
  have hlowered : lib.lower (normaliseDomain lib domain) = normaliseDomain lib domain := by
    apply hlower domain
    rw [hresult, h]
    exact (join_suffix hsuffix hnil).isInfix.trans (List.prefix_append _ _).isInfix
  -- with two labels it is a name again
  have hagain (htwo : 2 ≤ (registrable name.labels).length) :
      PyStr.split '.' (normaliseDomain lib (normaliseDomain lib domain)) =
        registrable (registrable name.labels) := by
    have hname : (lib.lower (normaliseDomain lib domain)).toList =
        (join (name.last hsuffix htwo).labels).toList ++ List.replicate 0 '.' := by
      rw [hlowered, hresult]
      exact (List.append_nil _).symm
    have hsub := (registrable_suffix (registrable name.labels)).trans hsuffix
    rw [normaliseDomain_eq _ hname]
    exact split_join (fun label hlabel => name.isLabel label (hsub.subset hlabel))
      (registrable_ne_nil htwo)
  constructor
  · intro hnormalised
    have htwo := hnormalised.two_le
    rw [hsplit] at htwo
    refine ⟨htwo, ?_⟩
    rw [← hagain htwo, hnormalised.again, hsplit]
  · rintro ⟨htwo, hfixed⟩
    have hdomain := hagain htwo
    rw [hfixed] at hdomain
    constructor
    · rw [hsplit]
      exact hsuffix
    · rw [hsplit]
      exact htwo
    · apply split_injective
      rw [hdomain, hsplit]
    · have hrstrip : PyStr.rstrip '.' (normaliseDomain lib domain) = normaliseDomain lib domain := by
        rw [hresult]
        exact (name.last hsuffix htwo).rstrip_join
      have hlast : (registrable name.labels).getLast? = name.labels.getLast? := by
        obtain ⟨before, hbefore⟩ := hsuffix
        exact (List.getLast?_append_of_ne_nil before hnil).symm.trans (congrArg _ hbefore)
      unfold RdapBootstrap.extractTld
      simp only [hlowered, hrstrip, hsplit]
      rw [if_neg (by omega), hlast]

/-! ### Samples -/

/-- A library that lower-cases ASCII. -/
def asciiLibrary : Library where
  lower := PyStr.lowerAscii
  str := Json.plainStr
  fromisoformat _ := none
  excText := PyError.sampleText

theorem toLower_toLower (c : Char) : c.toLower.toLower = c.toLower := by
  by_cases hupper : 65 ≤ c.toNat ∧ c.toNat ≤ 90
  · have hall : ∀ n < 91, 65 ≤ n → (Char.ofNat n).toLower.toLower = (Char.ofNat n).toLower := by
      decide
    have hc := hall c.toNat (by omega) hupper.1
    rwa [Char.ofNat_toNat] at hc
  · have hlower : c.toLower = c := dif_neg (by simpa [UInt32.le_iff_toNat_le] using hupper)
    rw [hlower, hlower]

theorem lowerFixes_asciiLibrary : LowerFixes asciiLibrary.lower := by
  intro s t ht
  have hsame : ∀ c ∈ t.toList, c.toLower = c := by
    intro c hc
    have hlower := ht.subset hc
    rw [show asciiLibrary.lower s = PyStr.lowerAscii s from rfl, PyStr.lowerAscii,
      String.toList_ofList] at hlower
    obtain ⟨d, -, rfl⟩ := List.mem_map.mp hlower
    exact toLower_toLower d
  show PyStr.lowerAscii t = t
  rw [PyStr.lowerAscii, List.map_congr_left hsame, List.map_id', String.ofList_toList]

/-- The labels of `www.example.com`. -/
def exampleName : DomainName where
  labels := ["www", "example", "com"]
  two_le_length := by decide
  isLabel := by
    simp [IsLabel]
    decide

theorem noWwwKept_example : NoWwwKept exampleName.labels := by
  show NoWwwKept (["www"] ++ ["example", "com"])
  rw [noWwwKept_append]
  exact ⟨by decide, fun _ _ => rfl⟩

/-- A "www" before the registrable domain goes. -/
theorem normalised_example : Normalised asciiLibrary "WWW.Example.com." exampleName :=
  (normalised_iff lowerFixes_asciiLibrary exampleName 1 (by decide +kernel)).mpr
    noWwwKept_example

/-- The labels of `www.com`. -/
def wwwName : DomainName where
  labels := ["www", "com"]
  two_le_length := by decide
  isLabel := by
    simp [IsLabel]
    decide

/-- Of the registered name `www.com` the top-level domain is left, which no registry answers for. -/
theorem www_com_lost :
    ¬ ∀ (domain : String) (name : DomainName), (PyStr.lowerAscii domain).toList =
      (join name.labels).toList → Normalised asciiLibrary domain name := by
  intro h
  have htwo := (h "www.com" wwwName (by decide +kernel)).two_le
  exact absurd htwo (by decide +kernel)

end Verdix.Rdap
