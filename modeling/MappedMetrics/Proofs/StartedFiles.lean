import MappedMetrics.Proofs.ValueSlots
import MappedMetrics.Writer

namespace MappedMetrics.Proofs.StartedFiles

open MappedMetrics
open MappedMetrics.Proofs.Spans
open MappedMetrics.Proofs.WriteRuns
open MappedMetrics.Proofs.PackedLayout
open MappedMetrics.Proofs.ValueSlots

theorem find?_map_replace {nodes : List (Place × Node)} {place : Place} (node : Node)
    (hany : nodes.any (fun entry => entry.1 = place) = true) :
    (nodes.map fun entry => if entry.1 = place then (place, node) else entry).find?
      (fun entry => entry.1 = place) = some (place, node) := by
  induction nodes with
  | nil => cases hany
  | cons entry rest ih =>
      rw [List.map_cons]
      by_cases hplace : entry.1 = place
      · rw [if_pos hplace, List.find?_cons_of_pos (by simp)]
      · rw [if_neg hplace, List.find?_cons_of_neg (by simpa using hplace)]
        refine ih ?_
        simpa [hplace] using hany

theorem node?_put_self {volume : Volume} {place : Place} (node : Node)
    (hplace : place.isAbove = false) : (volume.put place node).node? place = some node := by
  rw [Volume.node?, if_neg (by rw [hplace]; decide), Volume.put]
  split
  · rename_i hany
    rw [find?_map_replace node hany]
    rfl
  · rename_i hnone
    have hnot : ∀ entry ∈ volume.nodes, ¬ decide (entry.1 = place) = true := by
      intro entry hmem hsame
      exact hnone (List.any_eq_true.mpr ⟨entry, hmem, hsame⟩)
    rw [List.find?_append, List.find?_eq_none.mpr hnot]
    simp

theorem find?_map_replace_of_ne {nodes : List (Place × Node)} {place other : Place} (node : Node)
    (hne : other ≠ place) :
    (nodes.map fun entry => if entry.1 = place then (place, node) else entry).find?
      (fun entry => entry.1 = other) = nodes.find? fun entry => entry.1 = other := by
  induction nodes with
  | nil => rfl
  | cons entry rest ih =>
      rw [List.map_cons, List.find?_cons, List.find?_cons, ih]
      by_cases hplace : entry.1 = place
      · rw [if_pos hplace, hplace, decide_eq_false hne.symm]
      · rw [if_neg hplace]

theorem node?_put_of_ne {volume : Volume} {place other : Place} (node : Node)
    (hne : other ≠ place) : (volume.put place node).node? other = volume.node? other := by
  rw [Volume.node?, Volume.node?, Volume.put]
  split
  · rfl
  · split
    · rw [find?_map_replace_of_ne node hne]
    · rw [List.find?_append, List.find?_singleton, if_neg (by simpa using hne.symm), Option.or_none]

theorem contents_put_self {volume : Volume} {place : Place} (image : Image)
    (hplace : place.isAbove = false) :
    (volume.put place (.file image)).contents place = image := by
  rw [Volume.contents, node?_put_self _ hplace]

theorem isAbove_of_write {volume next : Volume} {path : String} {image : Image} {place : Place}
    (hwrite : volume.write path image = .ok (next, place)) : place.isAbove = false := by
  simp only [Volume.write, bind, Except.bind] at hwrite
  split at hwrite
  · cases hwrite
  · split at hwrite
    · cases hwrite
    · split at hwrite
      · cases hwrite
      · rename_i located
        split at hwrite
        · cases hwrite
        · split at hwrite
          · cases hwrite
          · split at hwrite
            · cases hwrite
            · rename_i hnode
              cases hwrite
              refine Bool.eq_false_iff.mpr fun habove => hnode ?_
              rw [Volume.node?, if_pos habove]

theorem create_ok {volume next : Volume} {path : String} {length : Nat} {file : MappedFile}
    (hcreate : MappedFile.create volume path length = (next, .ok file)) :
    file.length = length ∧ file.place.isAbove = false ∧ file.contents next = .zeros length := by
  simp only [MappedFile.create] at hcreate
  split at hcreate
  · cases hcreate
  · rename_i made place hwrite
    split at hcreate
    · cases hcreate
    · cases hcreate
      have habove := isAbove_of_write hwrite
      exact ⟨rfl, habove, contents_put_self _ habove⟩

theorem route_m : Volume.route "m" = .ok ⟨.home, [], "m", false⟩ := by
  have hparts : "m".splitOn "/" = ["m"] := by
    rw [String.splitOn, if_neg (by decide), String.splitOnAux, if_neg (by decide),
      if_neg (by decide), String.splitOnAux, if_pos (by decide)]
    rfl
  rw [Volume.route, if_neg (by decide), if_neg (by decide), if_neg (by decide), hparts]
  rfl

theorem create_m {length : Nat} (hlength : length ≤ Volume.maxLength) :
    MappedFile.create .empty "m" length =
      (⟨[(["m"], .file (.zeros length))]⟩, .ok ⟨"m", ["m"], length⟩) := by
  have hwrite : Volume.empty.write "m" (.zeros 0) =
      .ok (⟨[(["m"], .file (.zeros 0))]⟩, ["m"]) := by
    rw [Volume.write, route_m]
    rfl
  simp only [MappedFile.create, hwrite, if_neg (Nat.not_lt.mpr hlength)]
  rfl

theorem contents_replace {file : MappedFile} (volume : Volume) (image : Image)
    (hplace : file.place.isAbove = false) :
    file.contents (file.replace volume image) = image :=
  contents_put_self image hplace

/-- A mapped file has what the writes of its structure, and then the last mark, leave in zeros. -/
structure Published (writer : Writer) (layout : Layout) (generation : UInt64) (file : MappedFile)
    (volume : Volume) : Prop where
  length : file.length = layout.length
  place : file.place.isAbove = false
  written : ∃ image, Write.run (.zeros layout.length)
      (writer.format.structureWrites layout writer.metrics generation) = (image, .ok ()) ∧
    file.contents volume = (Write.run image [writer.format.publishWrite generation]).1

theorem made_of_mark {file made : MappedFile} {volume next : Volume} {image : Image}
    {mark : List Write} {sidecar other : Option String} (hplace : file.place.isAbove = false)
    (hmark : (file.replace volume (Write.run image mark).1,
      (Write.run image mark).2.map fun _ => (file, sidecar)) = (next, .ok (made, other))) :
    file = made ∧ sidecar = other ∧ file.contents next = (Write.run image mark).1 := by
  obtain ⟨hnext, hresult⟩ := Prod.mk.inj hmark
  have hcontents : file.contents next = (Write.run image mark).1 := by
    rw [← hnext, contents_replace _ _ hplace]
  cases hrun : (Write.run image mark).2 with
  | error fault =>
      rw [hrun] at hresult
      cases hresult
  | ok =>
      rw [hrun] at hresult
      cases hresult
      exact ⟨rfl, rfl, hcontents⟩

theorem published_of_publish {writer : Writer} {volume next : Volume} {layout : Layout}
    {generation : UInt64} {file : MappedFile} {sidecar : Option String}
    (hpublish : writer.publish volume layout generation = (next, .ok (file, sidecar))) :
    Published writer layout generation file next := by
  simp only [Writer.publish] at hpublish
  split at hpublish
  · cases hpublish
  · rename_i created made hcreate
    obtain ⟨hlength, hplace, hzeros⟩ := create_ok hcreate
    rw [hzeros] at hpublish
    split at hpublish
    · cases hpublish
    · rename_i image hrun
      split at hpublish
      · obtain ⟨rfl, _, hcontents⟩ := made_of_mark hplace hpublish
        exact ⟨hlength, hplace, image, hrun, hcontents⟩
      · split at hpublish
        · cases hpublish
        · obtain ⟨rfl, _, hcontents⟩ := made_of_mark hplace hpublish
          exact ⟨hlength, hplace, image, hrun, hcontents⟩

/-- A started writer has the metrics that it had, the layout planned for them, and the published
file. -/
structure Started (writer next : Writer) (layout : Layout) (generation : UInt64)
    (file : MappedFile) (volume : Volume) : Prop where
  plan : writer.format.plan writer.metrics = .ok layout
  format : next.format = writer.format
  metrics : next.metrics = writer.metrics
  index : next.index = writer.index
  laidOut : next.layout = some layout
  mapped : next.file = some file
  published : Published writer layout generation file volume

theorem started_of_start {writer : Writer} {volume : Volume} {generation : UInt64}
    (hstart : (writer.start volume generation).result = .ok ()) :
    ∃ layout file, Started writer (writer.start volume generation).writer layout generation file
      (writer.start volume generation).volume := by
  simp only [Writer.start, Writer.startBy] at hstart ⊢
  split at hstart
  · cases hstart
  · cases hstart
  · split at hstart
    · cases hstart
    · rename_i layout hplan
      split at hstart
      · cases hstart
      · rename_i next file sidecar hpublish
        exact ⟨layout, file, hplan, rfl, rfl, rfl, rfl, rfl, published_of_publish hpublish⟩

namespace Published

variable {writer : Writer} {layout : Layout} {generation : UInt64} {file : MappedFile}
  {volume : Volume}

theorem length_contents (hpublished : Published writer layout generation file volume) :
    (file.contents volume).length = layout.length := by
  obtain ⟨image, hrun, hcontents⟩ := hpublished.written
  have himage := congrArg (fun outcome => outcome.1.length) hrun
  rw [hcontents, Write.length_run, ← himage, Write.length_run]
  rfl

theorem read_slot (hpublished : Published writer layout generation file volume)
    (hslotted : Slotted writer.format writer.metrics layout) {entry : Metric × Offsets}
    (hmem : entry ∈ writer.metrics.zip layout.offsets) :
    ∃ laid, entry.1.handler.putBytes entry.1.handler.dataLength.toNat (fun _ => 0)
        entry.1.initial = .ok laid ∧
      read (file.contents volume) (slotOf entry) = laid.bytes := by
  obtain ⟨image, hrun, hcontents⟩ := hpublished.written
  have hmark : ∀ write ∈ [writer.format.publishWrite generation],
      (range write).Apart (slotOf entry) := by
    intro write hwrite
    rw [List.mem_singleton.mp hwrite]
    exact hslotted.unmarked generation entry hmem
  have hslot : Write.slot entry.2.value.toNat entry.1.handler entry.1.initial ∈
      writer.format.structureWrites layout writer.metrics generation :=
    slot_mem_structureWrites generation hmem
  have hzeros : ∀ i < (Image.zeros layout.length).length,
      (Image.zeros layout.length).toBytes[i]? = some 0 := by
    intro i hi
    rw [Image.zeros, Image.toBytes_uniform]
    exact List.getElem?_replicate_of_lt hi
  have hok := congrArg Prod.snd hrun
  have himage := congrArg Prod.fst hrun
  obtain ⟨laid, hput, hread⟩ := read_slot_of_run hzeros (hslotted.follows generation) hok hslot
  refine ⟨laid, hput, ?_⟩
  rw [himage] at hread
  rw [hcontents, read_run_of_apart hmark]
  exact hread

end Published

end MappedMetrics.Proofs.StartedFiles
