import Mathlib.Data.String.Basic
import MappedMetrics.Proofs.StartedFiles

namespace MappedMetrics.Proofs.SidecarFiles

open String (utf8Len)
open MappedMetrics
open MappedMetrics.FileFormat
open MappedMetrics.Proofs.StartedFiles

theorem splitOnAux_cons (done part : List Char) (c : Char) (rest : List Char)
    (parts : List String) :
    let text := String.ofList (done ++ part ++ c :: rest)
    let next : String.Pos.Raw := ⟨utf8Len done + utf8Len part + c.utf8Size⟩
    text.splitOnAux "/" ⟨utf8Len done⟩ ⟨utf8Len done + utf8Len part⟩ 0 parts =
      if c = '/' then text.splitOnAux "/" next next 0 (.ofList part :: parts)
      else text.splitOnAux "/" ⟨utf8Len done⟩ next 0 parts := by
  intro text next
  have hplace : (⟨utf8Len done + utf8Len part⟩ : String.Pos.Raw) = ⟨utf8Len (done ++ part)⟩ := by
    rw [String.utf8Len_append]
  have hnot : ¬ String.Pos.Raw.atEnd text ⟨utf8Len done + utf8Len part⟩ = true := by
    rw [hplace, String.atEnd_of_valid]
    simp
  have hget : String.Pos.Raw.get text ⟨utf8Len done + utf8Len part⟩ = c := by
    rw [hplace, String.get_of_valid]
    rfl
  have hnext : String.Pos.Raw.next text ⟨utf8Len done + utf8Len part⟩ = next := by
    rw [hplace, String.next_of_valid, String.utf8Len_append]
  have hextract : String.Pos.Raw.extract text ⟨utf8Len done⟩ ⟨utf8Len done + utf8Len part⟩ =
      .ofList part := String.extract_of_valid done part (c :: rest)
  have hfirst : String.Pos.Raw.get "/" 0 = '/' := by decide
  rw [String.splitOnAux, if_neg hnot, hget, hfirst]
  by_cases hstroke : c = '/'
  · have hwidth : String.Pos.Raw.next "/" 0 = ⟨1⟩ := by decide
    have hlast : String.Pos.Raw.atEnd "/" ⟨1⟩ = true := by decide
    have hsize : c.utf8Size = 1 := by
      rw [hstroke]
      decide
    have hback : next.unoffsetBy ⟨1⟩ = ⟨utf8Len done + utf8Len part⟩ := by
      simp [next, String.Pos.Raw.unoffsetBy, hsize]
    rw [if_pos (beq_iff_eq.mpr hstroke), if_pos hstroke]
    simp only [hwidth, hlast, if_true, hnext, hback, hextract]
  · have hback : (⟨utf8Len done + utf8Len part⟩ : String.Pos.Raw).unoffsetBy 0 =
        ⟨utf8Len done + utf8Len part⟩ := rfl
    rw [if_neg (mt beq_iff_eq.mp hstroke), if_neg hstroke, hback, hnext]

theorem splitOnAux_stroke (rest done part : List Char) (parts : List String) :
    String.splitOnAux (.ofList (done ++ part ++ rest)) "/" ⟨utf8Len done⟩
        ⟨utf8Len done + utf8Len part⟩ 0 parts =
      parts.reverse ++ (List.splitOnPPrepend (· == '/') rest part.reverse).map .ofList := by
  -- The part grows by one character at a time, until a stroke puts it with the others.
  induction rest generalizing done part parts with
  | nil =>
      have hplace : (⟨utf8Len done + utf8Len part⟩ : String.Pos.Raw) =
          ⟨utf8Len (done ++ part)⟩ := by rw [String.utf8Len_append]
      have hend : String.Pos.Raw.atEnd (.ofList (done ++ part ++ []))
          ⟨utf8Len done + utf8Len part⟩ = true := by rw [hplace, String.atEnd_of_valid]
      rw [String.splitOnAux, if_pos hend, String.extract_of_valid, List.splitOnPPrepend_nil,
        List.reverse_reverse]
      exact List.reverse_cons
  | cons c rest ih =>
      rw [splitOnAux_cons, List.splitOnPPrepend_cons_eq_if]
      by_cases hstroke : c = '/'
      · have hrest := ih (done ++ part ++ [c]) [] (.ofList part :: parts)
        rw [if_pos hstroke, if_pos (beq_iff_eq.mpr hstroke)]
        simpa [-String.ofList_append, Nat.add_assoc] using hrest
      · have hrest := ih done (part ++ [c]) parts
        rw [if_neg hstroke, if_neg (mt beq_iff_eq.mp hstroke)]
        simpa [-String.ofList_append, Nat.add_assoc] using hrest

theorem splitOn_stroke (path : String) :
    path.splitOn "/" = (path.toList.splitOnP (· == '/')).map .ofList := by
  have hparts := splitOnAux_stroke path.toList [] [] []
  rw [List.nil_append, List.nil_append, String.ofList_toList] at hparts
  rw [String.splitOn, if_neg (by decide)]
  exact hparts

theorem beq_eq_false_of_not_mem {text : List Char} {sep : Char} (hsep : sep ∉ text) :
    ∀ c ∈ text, (c == sep) = false := by
  intro c hmem
  apply beq_eq_false_iff_ne.mpr
  rintro rfl
  exact hsep hmem

theorem exists_splitOnP_append {tail : List Char} (htail : '/' ∉ tail)
    (path : List Char) : ∃ above last, path.splitOnP (· == '/') = above ++ [last] ∧
      (path ++ tail).splitOnP (· == '/') = above ++ [last ++ tail] := by
  induction path with
  | nil => exact ⟨[], [], rfl, List.splitOnP_eq_singleton (beq_eq_false_of_not_mem htail)⟩
  | cons c rest ih =>
      obtain ⟨above, last, hrest, happended⟩ := ih
      rw [List.cons_append, List.splitOnP_cons_eq_if_modifyHead,
        List.splitOnP_cons_eq_if_modifyHead, hrest, happended]
      split
      · exact ⟨[] :: above, last, rfl, rfl⟩
      · cases above with
        | nil => exact ⟨[], c :: last, rfl, rfl⟩
        | cons part above => exact ⟨(c :: part) :: above, last, rfl, rfl⟩

theorem last_of_route {path : String} {route : Volume.Route} {above : List String} {part : String}
    (hroute : Volume.route path = .ok route) (hstroke : route.endsWithStroke = false)
    (hparts : path.splitOn "/" = above ++ [part]) : route.last = part := by
  simp only [Volume.route] at hroute
  split at hroute
  · cases hroute
  · split at hroute
    · cases hroute
    · split at hroute
      · cases hroute
      · cases hroute
        rw [hparts, List.reverse_append, List.reverse_singleton, List.singleton_append] at hstroke ⊢
        by_cases hempty : part = ""
        · rw [hempty, List.dropWhile_cons_of_pos (by decide)] at hstroke
          have hlength := of_decide_eq_false hstroke
          have hshort : (above.reverse.dropWhile (· == "")).length ≤ above.reverse.length :=
            (List.dropWhile_sublist _).length_le
          rw [List.length_append] at hlength
          rw [List.length_reverse] at hshort
          exact absurd (Nat.lt_succ_of_le hshort) hlength
        · rw [List.dropWhile_cons_of_neg (by simpa using hempty)]
          rfl

/-- A path names a file, by its last name in a directory that is there. -/
structure Names (volume : Volume) (path : String) (directory : Place) (last : String) : Prop where
  route : ∃ start above, Volume.route path = .ok ⟨start, above, last, false⟩ ∧
    volume.walk start above = .ok directory
  named : ¬ (last = "" ∨ last = "." ∨ last = "..")
  limit : (Text.utf8 last).length ≤ Volume.maxName

theorem walk_put {volume : Volume} {place : Place} (image : Image)
    (hplace : volume.node? place ≠ some .directory) {names : List String} {first last : Place}
    (hwalk : volume.walk first names = .ok last) :
    (volume.put place (.file image)).walk first names = .ok last := by
  induction names generalizing first with
  | nil => exact hwalk
  | cons name rest ih =>
      rw [Volume.walk] at hwalk ⊢
      split at hwalk
      · rename_i hpoint
        rw [if_pos hpoint]
        exact ih hwalk
      · rename_i hpoint
        rw [if_neg hpoint]
        split at hwalk
        · rename_i hup
          rw [if_pos hup]
          exact ih hwalk
        · rename_i hup
          rw [if_neg hup]
          split at hwalk
          · cases hwalk
          · rename_i hlong
            rw [if_neg hlong]
            split at hwalk
            · cases hwalk
            · cases hwalk
            · rename_i hnode
              -- Each place on the way is a directory, so the file is at none of them.
              have hne : first ++ [name] ≠ place := by
                rintro rfl
                exact hplace hnode
              rw [node?_put_of_ne _ hne, hnode]
              exact ih hwalk

namespace Names

variable {volume other : Volume} {path last : String} {directory : Place}

theorem put (hnames : Names volume path directory last) {place : Place} (image : Image)
    (hplace : volume.node? place ≠ some .directory) :
    Names (volume.put place (.file image)) path directory last := by
  obtain ⟨⟨start, above, hroute, hwalk⟩, hnamed, hlimit⟩ := hnames
  exact ⟨⟨start, above, hroute, walk_put image hplace hwalk⟩, hnamed, hlimit⟩

theorem read (hnames : Names volume path directory last) {image : Image}
    (hfile : volume.node? (directory ++ [last]) = some (.file image)) :
    volume.read path = .ok image := by
  obtain ⟨⟨start, above, hroute, hwalk⟩, hnamed, hlimit⟩ := hnames
  simp only [Volume.read, hroute, Volume.locate, hwalk, bind, Except.bind, if_neg hnamed,
    Volume.checkLast, if_neg (Nat.not_lt.mpr hlimit), hfile]
  rfl

end Names

theorem names_of_write {volume next : Volume} {path : String} {image : Image} {place : Place}
    (hwrite : volume.write path image = .ok (next, place)) :
    ∃ directory last, Names volume path directory last ∧ place = directory ++ [last] ∧
      volume.node? place ≠ some .directory ∧ next = volume.put place (.file image) := by
  obtain ⟨⟨start, above, last, stroke⟩, hroute, hwrite⟩ := Outcome.bind_eq_ok.mp hwrite
  obtain ⟨located, hlocated, hwrite⟩ := Outcome.bind_eq_ok.mp hwrite
  obtain ⟨directory, hwalk, hlocated⟩ := Outcome.bind_eq_ok.mp hlocated
  split at hlocated
  · cases hlocated
    cases hwrite
  · rename_i hnamed
    cases hlocated
    cases stroke with
    | true => cases hwrite
    | false =>
        obtain ⟨⟨⟩, hchecked, hwrite⟩ := Outcome.bind_eq_ok.mp hwrite
        have hlimit : (Text.utf8 last).length ≤ Volume.maxName := by
          rw [Volume.checkLast] at hchecked
          split at hchecked
          · cases hchecked
          · exact Nat.le_of_not_lt ‹_›
        split at hwrite
        · cases hwrite
        · rename_i hnode
          cases hwrite
          exact ⟨directory, last, ⟨⟨start, above, hroute, hwalk⟩, hnamed, hlimit⟩, rfl, hnode, rfl⟩

theorem Names.ne_sidecar {volume other : Volume} {path last text : String}
    {directory beside : Place} (hnames : Names volume path directory last)
    (hsidecar : Names other (Packed.sidecarPath path) beside text) :
    beside ++ [text] ≠ directory ++ [last] := by
  obtain ⟨⟨_, _, hroute, _⟩, _, _⟩ := hnames
  obtain ⟨⟨_, _, hbeside, _⟩, _, _⟩ := hsidecar
  have htail : '/' ∉ ".txt".toList := by decide
  obtain ⟨above, part, hparts, hlengthened⟩ := exists_splitOnP_append htail path.toList
  have hlast : last = .ofList part := by
    apply last_of_route hroute rfl
    rw [splitOn_stroke, hparts, List.map_append, List.map_singleton]
  have htext : text = .ofList (part ++ ".txt".toList) := by
    apply last_of_route hbeside rfl
    rw [splitOn_stroke, Packed.sidecarPath, String.toList_append, hlengthened, List.map_append,
      List.map_singleton]
  intro hsame
  have hnames := (List.append_inj' hsame rfl).2
  rw [hlast, htext, List.singleton_inj, String.ofList_inj] at hnames
  have hlength := congrArg List.length hnames
  rw [List.length_append] at hlength
  exact absurd hlength (Nat.ne_of_gt (Nat.lt_add_of_pos_right (by decide)))

/-- A path names a file at a place, which has some contents. -/
structure Stands (volume : Volume) (path : String) (place : Place) (image : Image) : Prop where
  names : ∃ directory last, Names volume path directory last ∧ place = directory ++ [last]
  file : volume.node? place = some (.file image)

theorem stands_of_write {volume next : Volume} {path : String} {image : Image} {place : Place}
    (hwrite : volume.write path image = .ok (next, place)) : Stands next path place image := by
  have habove := isAbove_of_write hwrite
  obtain ⟨directory, last, hnames, rfl, hnode, rfl⟩ := names_of_write hwrite
  exact ⟨⟨directory, last, hnames.put image hnode, rfl⟩, node?_put_self _ habove⟩

namespace Stands

variable {volume next : Volume} {path other : String} {place beside : Place} {image text : Image}

theorem read (hstands : Stands volume path place image) : volume.read path = .ok image := by
  obtain ⟨⟨directory, last, hnames, rfl⟩, hfile⟩ := hstands
  exact hnames.read hfile

theorem isAbove (hstands : Stands volume path place image) : place.isAbove = false := by
  refine Bool.eq_false_iff.mpr fun habove => ?_
  have hfile := hstands.file
  rw [Volume.node?, if_pos habove] at hfile
  cases hfile

theorem put_self (hstands : Stands volume path place image) (later : Image) :
    Stands (volume.put place (.file later)) path place later := by
  have habove := hstands.isAbove
  obtain ⟨⟨directory, last, hnames, rfl⟩, hfile⟩ := hstands
  have hnode : volume.node? (directory ++ [last]) ≠ some .directory := by simp [hfile]
  exact ⟨⟨directory, last, hnames.put later hnode, rfl⟩, node?_put_self _ habove⟩

theorem put_of_ne (hstands : Stands volume path place image) (later : Image)
    (hnode : volume.node? beside ≠ some .directory) (hne : place ≠ beside) :
    Stands (volume.put beside (.file later)) path place image := by
  obtain ⟨⟨directory, last, hnames, rfl⟩, hfile⟩ := hstands
  exact ⟨⟨directory, last, hnames.put later hnode, rfl⟩, (node?_put_of_ne _ hne).trans hfile⟩

theorem put_other (hstands : Stands volume path place image)
    (hother : Stands volume other beside text) (later : Image) (hne : place ≠ beside) :
    Stands (volume.put beside (.file later)) path place image := by
  refine hstands.put_of_ne later ?_ hne
  simp [hother.file]

theorem ne_sidecar (hstands : Stands volume path place image)
    (hsidecar : Stands next (Packed.sidecarPath path) beside text) : place ≠ beside := by
  obtain ⟨⟨directory, last, hnames, rfl⟩, _⟩ := hstands
  obtain ⟨⟨_, name, hbeside, rfl⟩, _⟩ := hsidecar
  exact (hnames.ne_sidecar hbeside).symm

theorem write_sidecar (hstands : Stands volume path place image)
    (hwrite : volume.write (Packed.sidecarPath path) text = .ok (next, beside)) :
    Stands next path place image := by
  have hne := hstands.ne_sidecar (stands_of_write hwrite)
  obtain ⟨_, _, _, _, hnode, rfl⟩ := names_of_write hwrite
  exact hstands.put_of_ne text hnode hne

end Stands

theorem stands_of_create {volume made : Volume} {path : String} {length : Nat} {file : MappedFile}
    (hcreate : MappedFile.create volume path length = (made, .ok file)) :
    Stands made path file.place (.zeros length) := by
  simp only [MappedFile.create] at hcreate
  split at hcreate
  · cases hcreate
  · rename_i written place hwrite
    split at hcreate
    · cases hcreate
    · cases hcreate
      exact (stands_of_write hwrite).put_self _

/-- The number that the first line with a generation gives. -/
def generationIn? (bytes : Bytes) : Option Nat := do
  let text ← Text.ofUtf8? bytes
  let line ← (text.toList.splitOnP (· == '\n')).find? ("generation=".toList.isPrefixOf ·)
  let digits := line.drop "generation=".length
  if digits.isEmpty || !digits.all Char.isDigit then none else some (Nat.ofDigitChars 10 digits 0)

theorem toList_sidecarText (layout : Layout) (metrics : List Metric) (generation : UInt64) :
    (Packed.sidecarText layout metrics generation).toList =
      "version=1".toList ++ '\n' :: ("generation=".toList ++ Nat.toDigits 10 generation.toNat ++
        '\n' :: (metrics.zip layout.offsets).flatMap fun entry =>
          (Packed.sidecarLine entry.1 entry.2).toList) := by
  have hversion : toString Packed.version = "1" := by decide
  have hnumber : (toString generation).toList = Nat.toDigits 10 generation.toNat := by
    change (toString generation.toNat).toList = _
    rw [Nat.toString_eq_repr, Nat.toList_repr]
  rw [Packed.sidecarText, String.toList_append, String.toList_join, List.flatMap_map]
  simp only [hversion, String.toList_append, hnumber, List.append_assoc]
  rfl

theorem exists_toList_sidecarText (layout : Layout) (metrics : List Metric) (generation : UInt64) :
    ∃ rest, (Packed.sidecarText layout metrics generation).toList =
      "version=1".toList ++ '\n' :: ("generation=".toList ++ Nat.toDigits 10 generation.toNat ++
        '\n' :: rest) :=
  ⟨_, toList_sidecarText layout metrics generation⟩

theorem generationIn?_sidecarText (layout : Layout) (metrics : List Metric) (generation : UInt64) :
    generationIn? (Text.utf8 (Packed.sidecarText layout metrics generation)) =
      some generation.toNat := by
  obtain ⟨rest, htext⟩ := exists_toList_sidecarText layout metrics generation
  have hdigits : ∀ c ∈ Nat.toDigits 10 generation.toNat, c.isDigit = true :=
    fun c hmem => Nat.isDigit_of_mem_toDigits (by decide) (by decide) hmem
  have hversion : '\n' ∉ "version=1".toList := by decide
  have hline : '\n' ∉ "generation=".toList ++ Nat.toDigits 10 generation.toNat := by
    rw [List.mem_append]
    rintro (hmem | hmem)
    · exact absurd hmem (by decide)
    · exact absurd (hdigits _ hmem) (by decide)
  have hnumber : ¬ ((Nat.toDigits 10 generation.toNat).isEmpty ||
      !(Nat.toDigits 10 generation.toNat).all Char.isDigit) = true := by
    rw [List.all_eq_true.mpr hdigits, List.isEmpty_eq_false_iff.mpr Nat.toDigits_ne_nil]
    decide
  have hdrop : ("generation=".toList ++ Nat.toDigits 10 generation.toNat).drop
      "generation=".length = Nat.toDigits 10 generation.toNat := List.drop_left
  rw [generationIn?, Text.ofUtf8?_utf8]
  simp only [Option.bind_eq_bind, Option.bind_some, htext]
  rw [List.splitOnP_append_cons_of_forall_mem (beq_eq_false_of_not_mem hversion) _ rfl,
    List.splitOnP_append_cons_of_forall_mem (beq_eq_false_of_not_mem hline) _ rfl,
    List.find?_cons_of_neg (by decide),
    List.find?_cons_of_pos (List.isPrefixOf_iff_prefix.mpr (List.prefix_append _ _))]
  simp only [Option.bind_some, hdrop]
  rw [if_neg hnumber, Nat.ofDigitChars_ten_toDigits]

end MappedMetrics.Proofs.SidecarFiles
