import MappedMetrics.Proofs.BridgeEffects
import MappedMetrics.Proofs.BridgeStopping
import MappedMetrics.Proofs.UpdateFrames

namespace MappedMetrics.Proofs.ValuesAtRest

open MappedMetrics
open MappedMetrics.Proofs.Spans
open MappedMetrics.Proofs.WriteRuns
open MappedMetrics.Proofs.PackedLayout
open MappedMetrics.Proofs.WriterCalls
open MappedMetrics.Proofs.StartedFiles
open MappedMetrics.Proofs.UpdateFrames
open MappedMetrics.Proofs.BridgeInterleaving
open MappedMetrics.Proofs.BridgeEffects
open MappedMetrics.Proofs.BridgeStopping

/-- The slot of the metric with a given name holds the encoding of a value. -/
def Holds (writer : Writer) (volume : Volume) (name : String) (value : MetricValue) : Prop :=
  ∃ offset data, writer.encoded name value = .ok (offset, data) ∧
    Bytes.slice (mapped writer volume) offset data.length = data

theorem slot_of_encoded {writer : Writer} {layout : Layout} {file : MappedFile} {name : String}
    {value : MetricValue} {offset : Nat} {data : Bytes} (hrunning : Running writer layout file)
    (hencoded : writer.encoded name value = .ok (offset, data)) :
    ∃ entry ∈ writer.metrics.zip layout.offsets, entry.1.name = name ∧
      offset = (slotOf entry).start ∧ data.length = (slotOf entry).length := by
  rcases encoded_cases hrunning name with ⟨entry, hmem, hname, hslot⟩ | ⟨_, hnone⟩
  · rw [hslot] at hencoded
    rcases zeroed_cases entry.1 entry.2 value with ⟨laid, hput, hmade⟩ | ⟨fault, _, hmade⟩
    · rw [hmade] at hencoded
      cases hencoded
      exact ⟨entry, hmem, hname, rfl, length_of_zeroed hput⟩
    · rw [hmade] at hencoded
      cases hencoded
  · rw [hnone] at hencoded
    cases hencoded

theorem updated_cases {writer : Writer} {layout : Layout} {file : MappedFile} {volume next : Volume}
    {name : String} {value : MetricValue} (hrunning : Running writer layout file)
    (hlength : (mapped writer volume).length = layout.length)
    (hupdated : writer.updated volume name value = .ok next) :
    (mapped writer next).length = layout.length ∧ Holds writer next name value ∧
      ∀ other shown, other ≠ name → Holds writer volume other shown →
        Holds writer next other shown := by
  have hreply : writer.updateMetric volume name value = ⟨writer, next, [], .ok ()⟩ := by
    rw [Writer.updateMetric, hupdated]
  rcases updateMetric_cases hrunning volume name value with
    ⟨entry, hmem, rfl, laid, hput, hencoded, hmade⟩ | ⟨fault, _, hmade⟩
  · rw [hreply] at hmade
    obtain ⟨-, rfl, -, -⟩ := Writer.Reply.mk.inj hmade
    have hdata : laid.bytes.length = (slotOf entry).length := length_of_zeroed hput
    have hfits : (slotOf entry).start + laid.bytes.length ≤ (mapped writer volume).length := by
      rw [hdata, hlength]
      exact hrunning.slotted.inside entry hmem
    have hmapped := mapped_store hrunning hlength hmem hdata
    rw [hmapped]
    refine ⟨by rw [Bytes.length_overwrite hfits, hlength], ⟨_, _, hencoded, ?_⟩, ?_⟩
    · rw [hmapped]
      exact Bytes.slice_overwrite hfits
    · rintro other shown hne ⟨offset, data, hother, hslice⟩
      refine ⟨offset, data, hother, ?_⟩
      obtain ⟨found, hfound, rfl, rfl, hwidth⟩ := slot_of_encoded hrunning hother
      rcases eq_or_apart hrunning hmem hfound with rfl | ⟨_, hapart⟩
      · exact absurd rfl hne
      · rw [hmapped, hwidth, ← hslice, hwidth]
        refine slice_congr fun i hholds => Bytes.getElem?_overwrite_of_not_mem hfits ?_
        rw [hdata]
        have hnot := hapart.symm.not_holds hholds
        simp only [Span.Holds, Span.finish] at hnot
        omega
  · rw [hreply] at hmade
    cases congrArg Writer.Reply.result hmade

/-- The world after an update that another thread makes by itself. -/
def withUpdate (world : World) (name : String) (value : MetricValue) : World :=
  { world with site := { world.site with
    volume := (world.site.writer.updateMetric world.site.volume name value).volume } }

/-- The worlds that moves of some kind lead to, while other threads may update metrics by themselves
unless a source has their name. -/
inductive Leads (allowed : Move → Prop) (first : World) : World → Prop where
  | refl : Leads allowed first first
  | move {world next : World} {happenings : List Happening} (move : Move) :
      Leads allowed first world → allowed move → world.step move = some (next, happenings) →
        Leads allowed first next
  | update {world : World} (name : String) (value : MetricValue) :
      Leads allowed first world → (∀ key, world.nameOf key ≠ some name) →
        Leads allowed first (withUpdate world name value)

/-- A move that leaves the writer started. -/
def KeepsWriter (move : Move) : Prop :=
  move ≠ .markWriter ∧ move ≠ .releaseWriter

/-- A move that leaves the writer started and a source as it is. -/
def KeepsSource (key : String) (move : Move) : Prop :=
  KeepsWriter move ∧ ∀ monitor, move ≠ .change key monitor

/-- What holds as long as the writer is started: each metric has its slot, and no two sources have
the same name. -/
structure Steady (world : World) (layout : Layout) (file : MappedFile) : Prop where
  running : Running world.site.writer layout file
  length : (mapped world.site.writer world.site.volume).length = layout.length
  given : world.thread.isSome → world.started = true
  distinct : ∀ key other name, world.nameOf key = some name → world.nameOf other = some name →
    key = other

/-- The thread is about to write a value under a name. -/
def Writes (name : String) (value : MetricValue) : Option Stage → Prop
  | some (.writing _ _ _ other written) => other = name ∧ written = value
  | _ => False

/-- The thread will not wait for signals again. -/
def Over : Option Stage → Prop
  | none | some (.applying true ..) | some (.writing true ..) | some (.checking true)
  | some (.leaving _) | some (.released _) | some (.finished _) => True
  | _ => False

/-- What a source reads now. -/
def Reads (world : World) (key : String) (value : MetricValue) : Prop :=
  ∃ monitor, world.site.monitor? key = some monitor ∧ monitor.current = .ok value

/-- Where a change of a source is that was signalled: it is on its way, or the file shows it. -/
inductive Due (key name : String) (world : World) : Prop where
  | queued : .changed key ∈ world.channel.queue → Due key name world
  | collected {batch : List String} :
      world.thread = some (.draining batch) → key ∈ batch → Due key name world
  | awaited : Awaits world.nameOf name world.thread → Due key name world
  | read {value : MetricValue} :
      Writes name value world.thread → Reads world key value → Due key name world
  | shown {value : MetricValue} :
      Reads world key value → Holds world.site.writer world.site.volume name value →
      (∀ written, Writes name written world.thread → written = value) → Due key name world
  | ended : world.started = true → Over world.thread → Due key name world

section Step

variable {world next : World} {layout : Layout} {file : MappedFile} {key name : String}
  {stage after : Stage}

theorem given_of_advanced (hsteady : Steady world layout file)
    (hadvanced : Advanced world next stage after) : next.started = true :=
  hadvanced.started.trans (hsteady.given (by rw [hadvanced.left]; rfl))

theorem due_of_over (hsteady : Steady world layout file)
    (hadvanced : Advanced world next stage after) (hover : Over (some after)) :
    Due key name next :=
  .ended (given_of_advanced hsteady hadvanced) (hadvanced.reached ▸ hover)

theorem due_of_queued (hsteady : Steady world layout file)
    (hadvanced : Advanced world next stage after) (hmem : .changed key ∈ world.channel.queue) :
    Due key name next := by
  have hover : Over (some after) → Due key name next := due_of_over hsteady hadvanced
  have hreached := hadvanced.reached
  have hadvance := hadvanced.advance
  generalize hchannel : next.channel = channel at hadvance
  generalize report stage after = happenings at hadvance
  cases hadvance with
  | takeFirst hqueue =>
      rw [hqueue] at hmem
      rcases List.mem_cons.mp hmem with hsame | hmem
      · cases hsame
        exact .collected hreached List.mem_cons_self
      · exact .queued (hchannel ▸ hmem)
  | take hqueue =>
      rw [hqueue] at hmem
      rcases List.mem_cons.mp hmem with hsame | hmem
      · cases hsame
        exact .collected hreached (List.mem_append_right _ List.mem_cons_self)
      · exact .queued (hchannel ▸ hmem)
  | empty hqueue =>
      rw [hqueue] at hmem
      cases hmem
  | endFirst | takeEnd | close => exact hover trivial
  | _ => exact .queued (hchannel ▸ hmem)

theorem due_of_collected {batch : List String} (hsteady : Steady world layout file)
    (hadvanced : Advanced world next stage after) (hnames : next.nameOf = world.nameOf)
    (hkey : world.nameOf key = some name) (hthread : world.thread = some (.draining batch))
    (hmem : key ∈ batch) : Due key name next := by
  obtain rfl : stage = .draining batch := Option.some.inj (hadvanced.left.symm.trans hthread)
  have hreached := hadvanced.reached
  have hadvance := hadvanced.advance
  generalize next.channel = channel at hadvance
  generalize report (.draining batch) after = happenings at hadvance
  cases hadvance with
  | take => exact .collected hreached (List.mem_append_left _ hmem)
  | takeEnd => exact due_of_over hsteady hadvanced trivial
  | empty =>
      apply Due.awaited
      rw [hreached, hnames]
      exact ⟨List.not_mem_nil, key, hmem, hkey⟩

theorem reads_of_advanced {value : MetricValue} (hadvanced : Advanced world next stage after)
    (hreads : Reads world key value) : Reads next key value := by
  obtain ⟨monitor, hmonitor, hcurrent⟩ := hreads
  refine ⟨monitor, ?_, hcurrent⟩
  rwa [Site.monitor?, hadvanced.spared.monitors]

theorem reads_of_read {shutdown : Bool} {batch seen others : List String} {value : MetricValue}
    (hadvanced : Advanced world next (.applying shutdown (key :: batch) seen)
      (.writing shutdown batch others name value)) : Reads world key value := by
  generalize hstage : Stage.applying shutdown (key :: batch) seen = stage at hadvanced
  generalize hafter : Stage.writing shutdown batch others name value = after at hadvanced
  cases hadvanced.effect with
  | read hmonitor hcurrent =>
      cases hstage
      cases hafter
      exact ⟨_, hmonitor, hcurrent⟩
  | write => cases hstage
  | neither _ _ hnot => exact absurd hafter.symm (hnot _ _ _ _ _)

theorem volume_of_advanced (hadvanced : Advanced world next stage after)
    (hstage : ∀ shutdown batch seen name value,
      stage ≠ .writing shutdown batch seen name value) :
    next.site.volume = world.site.volume := by
  cases hadvanced.effect with
  | read _ _ hvolume | neither hvolume => exact hvolume
  | write => exact absurd rfl (hstage _ _ _ _ _)

theorem updated_of_advanced {shutdown : Bool} {batch seen : List String} {value : MetricValue}
    (hadvanced : Advanced world next (.writing shutdown batch seen name value)
      (.applying shutdown batch seen)) :
    world.site.writer.updated world.site.volume name value = .ok next.site.volume := by
  generalize hstage : Stage.writing shutdown batch seen name value = stage at hadvanced
  generalize hafter : Stage.applying shutdown batch seen = after at hadvanced
  cases hadvanced.effect with
  | read => cases hstage
  | write hupdated =>
      cases hstage
      exact hupdated
  | neither _ _ _ hquiet =>
      cases hstage
      cases hafter
      exact absurd List.mem_cons_self (hquiet name value)

theorem due_of_awaited (hsteady : Steady world layout file)
    (hadvanced : Advanced world next stage after) (hnames : next.nameOf = world.nameOf)
    (hkey : world.nameOf key = some name) (hawaits : Awaits world.nameOf name world.thread) :
    Due key name next := by
  have hstay : Awaits world.nameOf name (some after) → Due key name next := fun hlater =>
    .awaited (by rwa [hadvanced.reached, hnames])
  rw [hadvanced.left] at hawaits
  have hadvance := hadvanced.advance
  generalize next.channel = channel at hadvance
  generalize report stage after = happenings at hadvance
  cases hadvance with
  | skip hskip =>
      obtain ⟨hfresh, source, hmem, hname⟩ := hawaits
      rcases List.mem_cons.mp hmem with rfl | hmem
      · exact absurd (hskip name hname) hfresh
      · exact hstay ⟨hfresh, source, hmem, hname⟩
  | @read shutdown source other batch seen value hsource hother =>
      obtain ⟨hfresh, awaited, hmem, hname⟩ := hawaits
      by_cases hsame : other = name
      · subst hsame
        obtain rfl := hsteady.distinct _ _ _ hkey hsource
        have hwrites : Writes other value next.thread := by
          rw [hadvanced.reached]
          exact ⟨rfl, rfl⟩
        exact .read hwrites (reads_of_advanced hadvanced (reads_of_read hadvanced))
      · refine hstay ⟨?_, ?_⟩
        · simp only [List.mem_cons, not_or]
          exact ⟨fun heq => hsame heq.symm, hfresh⟩
        · rcases List.mem_cons.mp hmem with rfl | hmem
          · rw [hname] at hsource
            cases hsource
            exact absurd rfl hsame
          · exact ⟨awaited, hmem, hname⟩
  | write => exact hstay hawaits
  | applied => simp [Awaits] at hawaits
  | giveUp | fail => exact due_of_over hsteady hadvanced trivial
  | _ => exact absurd hawaits id

theorem due_of_read {value : MetricValue} (hsteady : Steady world layout file)
    (hadvanced : Advanced world next stage after) (hwrites : Writes name value world.thread)
    (hreads : Reads world key value) : Due key name next := by
  rw [hadvanced.left] at hwrites
  have hadvance := hadvanced.advance
  generalize next.channel = channel at hadvance
  generalize report stage after = happenings at hadvance
  cases hadvance with
  | write =>
      obtain ⟨rfl, rfl⟩ := hwrites
      have hupdated := updated_of_advanced hadvanced
      obtain ⟨_, hholds, _⟩ := updated_cases hsteady.running hsteady.length hupdated
      refine .shown (reads_of_advanced hadvanced hreads) (hadvanced.spared.writer ▸ hholds) ?_
      rw [hadvanced.reached]
      exact fun _ => False.elim
  | fail => exact due_of_over hsteady hadvanced trivial
  | _ => exact hwrites.elim

theorem due_of_shown {value : MetricValue} (hsteady : Steady world layout file)
    (hadvanced : Advanced world next stage after) (hkey : world.nameOf key = some name)
    (hreads : Reads world key value)
    (hholds : Holds world.site.writer world.site.volume name value)
    (hpending : ∀ written, Writes name written world.thread → written = value) :
    Due key name next := by
  have hlater := reads_of_advanced hadvanced hreads
  have hidle : next.site.volume = world.site.volume →
      (∀ written, ¬ Writes name written (some after)) → Due key name next := by
    intro hvolume hnone
    refine .shown hlater (by rwa [hadvanced.spared.writer, hvolume]) ?_
    rw [hadvanced.reached]
    exact fun written hwrites => absurd hwrites (hnone written)
  have hadvance := hadvanced.advance
  generalize next.channel = channel at hadvance
  generalize report stage after = happenings at hadvance
  cases hadvance with
  | @read shutdown source other batch seen written hsource hother =>
      have hvolume := volume_of_advanced hadvanced (by simp)
      refine .shown hlater (by rwa [hadvanced.spared.writer, hvolume]) ?_
      rw [hadvanced.reached]
      rintro _ ⟨rfl, rfl⟩
      -- Names are distinct, so it is the same source that is read.
      obtain rfl := hsteady.distinct _ _ _ hkey hsource
      obtain ⟨monitor, hmonitor, hcurrent⟩ := hreads
      obtain ⟨found, hfound, hread⟩ := reads_of_read hadvanced
      obtain rfl : monitor = found := Option.some.inj (hmonitor.symm.trans hfound)
      exact Except.ok.inj (hread.symm.trans hcurrent)
  | @write shutdown batch seen other written =>
      have hupdated := updated_of_advanced hadvanced
      obtain ⟨_, hwrote, hothers⟩ := updated_cases hsteady.running hsteady.length hupdated
      have hnext : Holds world.site.writer next.site.volume name value := by
        -- A write to the name itself is the one that was pending.
        by_cases hsame : other = name
        · subst hsame
          obtain rfl := hpending written (by rw [hadvanced.left]; exact ⟨rfl, rfl⟩)
          exact hwrote
        · exact hothers name value (fun heq => hsame heq.symm) hholds
      refine .shown hlater (hadvanced.spared.writer ▸ hnext) ?_
      rw [hadvanced.reached]
      exact fun _ => False.elim
  | fail => exact due_of_over hsteady hadvanced trivial
  | _ => exact hidle (volume_of_advanced hadvanced (by simp)) fun _ => id

theorem over_of_advanced (hsteady : Steady world layout file)
    (hadvanced : Advanced world next stage after) (hover : Over world.thread) :
    Due key name next := by
  refine due_of_over hsteady hadvanced ?_
  rw [hadvanced.left] at hover
  have hadvance := hadvanced.advance
  generalize next.channel = channel at hadvance
  generalize report stage after = happenings at hadvance
  cases hadvance with
  | @skip shutdown | @read shutdown | @applied shutdown | @write shutdown =>
      cases shutdown with
      | true => trivial
      | false => exact hover.elim
  | @again shutdown hstay =>
      cases shutdown with
      | true => cases hstay
      | false => exact hover.elim
  | giveUp | fail | leave | close | finish => trivial
  | _ => exact hover.elim

theorem due_of_advanced (hsteady : Steady world layout file)
    (hadvanced : Advanced world next stage after) (hnames : next.nameOf = world.nameOf)
    (hkey : world.nameOf key = some name) (hdue : Due key name world) : Due key name next := by
  cases hdue with
  | queued hmem => exact due_of_queued hsteady hadvanced hmem
  | collected hthread hmem => exact due_of_collected hsteady hadvanced hnames hkey hthread hmem
  | awaited hawaits => exact due_of_awaited hsteady hadvanced hnames hkey hawaits
  | read hwrites hreads => exact due_of_read hsteady hadvanced hwrites hreads
  | shown hreads hholds hpending =>
      exact due_of_shown hsteady hadvanced hkey hreads hholds hpending
  | ended _ hover => exact over_of_advanced hsteady hadvanced hover

theorem due_of_outside {move : Move} (hsteady : Steady world layout file)
    (houtside : Outside world next move) (hkeeps : KeepsSource key move)
    (hnames : next.nameOf = world.nameOf) (hdue : Due key name world) : Due key name next := by
  have hreads : ∀ {value}, Reads world key value → Reads next key value := by
    rintro value ⟨monitor, hmonitor, hcurrent⟩
    exact ⟨monitor, by rwa [houtside.monitor key hkeeps.2], hcurrent⟩
  have hholding : ∀ {value}, Holds world.site.writer world.site.volume name value →
      Holds next.site.writer next.site.volume name value := by
    rw [houtside.writer hkeeps.1.1 hkeeps.1.2, houtside.volume]
    exact id
  rcases houtside.thread with hsame | ⟨hnone, hnot, _, hreceiving⟩ | ⟨ending, hended, hgone⟩
  · cases hdue with
    | queued hmem => exact .queued (houtside.queue.subset hmem)
    | collected hthread hmem => exact .collected (hsame.trans hthread) hmem
    | awaited hawaits => exact .awaited (by rwa [hsame, hnames])
    | read hwrites hread => exact .read (hsame ▸ hwrites) (hreads hread)
    | shown hread hholds hpending =>
        exact .shown (hreads hread) (hholding hholds) (by rwa [hsame])
    | ended hstarted hover => exact .ended (houtside.started hstarted) (hsame ▸ hover)
  · rw [World.thread] at hnone
    cases hdue with
    | queued hmem => exact .queued (houtside.queue.subset hmem)
    | shown hread hholds =>
        refine .shown (hreads hread) (hholding hholds) ?_
        rw [hreceiving]
        exact fun _ => False.elim
    | collected hthread => simp [World.thread, hnone] at hthread
    | awaited hawaits => simp [World.thread, hnone, Awaits] at hawaits
    | read hwrites => simp [World.thread, hnone, Writes] at hwrites
    | ended hstarted => simp [hnot] at hstarted
  · have hstarted := hsteady.given (by rw [hended]; rfl)
    refine .ended (houtside.started hstarted) ?_
    rw [hgone]
    trivial

theorem steady_of_step {move : Move} {happenings : List Happening}
    (hsteady : Steady world layout file) (hkeeps : KeepsWriter move)
    (hstep : world.step move = some (next, happenings)) : Steady next layout file := by
  have hwriter := writer_of_step hkeeps.1 hkeeps.2 hstep
  have hnames := nameOf_step hstep
  constructor
  · rw [hwriter]
    exact hsteady.running
  · by_cases hmove : move = .thread
    · obtain ⟨stage, after, hadvanced, -⟩ := advanced_of_step (hmove ▸ hstep)
      rw [hwriter]
      cases hadvanced.effect with
      | read _ _ hvolume | neither hvolume =>
          rw [hvolume]
          exact hsteady.length
      | write hupdated => exact (updated_cases hsteady.running hsteady.length hupdated).1
    · rw [hwriter, (outside_of_step hmove hstep).volume]
      exact hsteady.length
  · by_cases hmove : move = .thread
    · obtain ⟨stage, after, hadvanced, -⟩ := advanced_of_step (hmove ▸ hstep)
      exact fun _ => given_of_advanced hsteady hadvanced
    · have houtside := outside_of_step hmove hstep
      intro hsome
      rcases houtside.thread with hsame | ⟨_, _, hstarted, _⟩ | ⟨_, _, hgone⟩
      · exact houtside.started (hsteady.given (hsame ▸ hsome))
      · exact hstarted
      · rw [hgone] at hsome
        cases hsome
  · rw [hnames]
    exact hsteady.distinct

theorem due_of_step {move : Move} {happenings : List Happening}
    (hsteady : Steady world layout file) (hkeeps : KeepsSource key move)
    (hkey : world.nameOf key = some name) (hstep : world.step move = some (next, happenings))
    (hdue : Due key name world) : Due key name next := by
  have hnames := nameOf_step hstep
  by_cases hmove : move = .thread
  · obtain ⟨stage, after, hadvanced, -⟩ := advanced_of_step (hmove ▸ hstep)
    exact due_of_advanced hsteady hadvanced hnames hkey hdue
  · exact due_of_outside hsteady (outside_of_step hmove hstep) hkeeps hnames hdue

end Step

section Update

variable {world : World} {layout : Layout} {file : MappedFile} {key name other : String}

theorem kept_withUpdate (hsteady : Steady world layout file) (updated : MetricValue) :
    (mapped world.site.writer (withUpdate world other updated).site.volume).length =
        layout.length ∧
      ∀ name value, name ≠ other → Holds world.site.writer world.site.volume name value →
        Holds world.site.writer (withUpdate world other updated).site.volume name value := by
  cases hupdated : world.site.writer.updated world.site.volume other updated with
  | ok volume =>
      have hvolume : (withUpdate world other updated).site.volume = volume := by
        simp only [withUpdate, Writer.updateMetric, hupdated]
      obtain ⟨hlength, _, hothers⟩ := updated_cases hsteady.running hsteady.length hupdated
      rw [hvolume]
      exact ⟨hlength, hothers⟩
  | error fault =>
      have hvolume : (withUpdate world other updated).site.volume = world.site.volume := by
        simp only [withUpdate, Writer.updateMetric, hupdated]
      rw [hvolume]
      exact ⟨hsteady.length, fun _ _ _ => id⟩

theorem steady_withUpdate (hsteady : Steady world layout file) (updated : MetricValue) :
    Steady (withUpdate world other updated) layout file :=
  ⟨hsteady.running, (kept_withUpdate hsteady updated).1, hsteady.given, hsteady.distinct⟩

theorem due_withUpdate (hsteady : Steady world layout file) (updated : MetricValue)
    (hne : name ≠ other) (hdue : Due key name world) :
    Due key name (withUpdate world other updated) := by
  cases hdue with
  | queued hmem => exact .queued hmem
  | collected hthread hmem => exact .collected hthread hmem
  | awaited hawaits => exact .awaited hawaits
  | read hwrites hreads => exact .read hwrites hreads
  | shown hreads hholds hpending =>
      exact .shown hreads ((kept_withUpdate hsteady updated).2 _ _ hne hholds) hpending
  | ended hstarted hover => exact .ended hstarted hover

end Update

theorem steady_of_leads {first world : World} {layout : Layout} {file : MappedFile}
    {allowed : Move → Prop} (hallowed : ∀ move, allowed move → KeepsWriter move)
    (hsteady : Steady first layout file) (hleads : Leads allowed first world) :
    Steady world layout file ∧ world.nameOf = first.nameOf := by
  induction hleads with
  | refl => exact ⟨hsteady, rfl⟩
  | move move _ hmove hstep ih =>
      exact ⟨steady_of_step ih.1 (hallowed move hmove) hstep, (nameOf_step hstep).trans ih.2⟩
  | update name value _ _ ih => exact ⟨steady_withUpdate ih.1 value, ih.2⟩

theorem due_of_leads {first world : World} {layout : Layout} {file : MappedFile}
    {key name : String} (hsteady : Steady first layout file)
    (hkey : first.nameOf key = some name) (hdue : Due key name first)
    (hleads : Leads (KeepsSource key) first world) : Due key name world := by
  induction hleads with
  | refl => exact hdue
  | move move hbefore hmove hstep ih =>
      obtain ⟨hnow, hnames⟩ := steady_of_leads (fun _ hkeeps => hkeeps.1) hsteady hbefore
      exact due_of_step hnow hmove (hnames ▸ hkey) hstep ih
  | update other value hbefore hfree ih =>
      obtain ⟨hnow, hnames⟩ := steady_of_leads (fun _ hkeeps => hkeeps.1) hsteady hbefore
      refine due_withUpdate hnow value ?_ ih
      rintro rfl
      exact hfree key (hnames ▸ hkey)

theorem distinct_of_nodup {world : World}
    (hnodup : (world.site.monitors.map fun entry => entry.2.name).Nodup) (key other name : String)
    (hkey : world.nameOf key = some name) (hother : world.nameOf other = some name) :
    key = other := by
  have hentry : ∀ {key}, world.nameOf key = some name →
      ∃ monitor, (key, monitor) ∈ world.site.monitors ∧ monitor.name = name := by
    intro key hkey
    simp only [World.nameOf, Site.monitor?, Option.map_map, Option.map_eq_some_iff] at hkey
    obtain ⟨⟨found, monitor⟩, hfound, hname⟩ := hkey
    have hsame : found = key := by simpa using List.find?_some hfound
    exact ⟨monitor, hsame ▸ List.mem_of_find?_eq_some hfound, hname⟩
  obtain ⟨first, hfirst, hname⟩ := hentry hkey
  obtain ⟨second, hsecond, hsame⟩ := hentry hother
  rcases eq_or_of_pairwise (fun _ _ => Ne.symm) (List.pairwise_map.mp hnodup) hfirst hsecond with
    hpair | hne
  · exact congrArg Prod.fst hpair
  · exact absurd (hname.trans hsame.symm) hne

/-- A run with a bridge that was made for a writer right after its start, and with sources of
different names, in which a signal is accepted and its source is not changed after that. -/
structure SignalledRun (writer : Writer) (volume : Volume) (generation : UInt64) (key : String)
    (first asked accepting last : World) : Prop where
  reachable : Reachable writer
  start : (writer.start volume generation).result = .ok ()
  fresh : first.Fresh
  sameWriter : first.site.writer = (writer.start volume generation).writer
  sameVolume : first.site.volume = (writer.start volume generation).volume
  nodup : (first.site.monitors.map fun entry => entry.2.name).Nodup
  reached : Leads KeepsWriter first asked
  accepted : ∃ microseconds,
    asked.step (.notify key microseconds) = some (accepting, [.accepted key])
  proceeded : Leads (KeepsSource key) accepting last

theorem thread_of_fresh {world : World} (hfresh : world.Fresh) : world.thread = none := by
  obtain ⟨config, _, hbridge⟩ := bridge_of_fresh hfresh
  rw [World.thread, hbridge]

theorem SignalledRun.steady {writer : Writer} {volume : Volume} {generation : UInt64} {key : String}
    {first asked accepting last : World}
    (hrun : SignalledRun writer volume generation key first asked accepting last) :
    ∃ layout file, Steady first layout file := by
  obtain ⟨layout, file, hstarted⟩ := started_of_start hrun.start
  have hfresh := fresh_of_started hrun.reachable hstarted
  refine ⟨layout, file, ?_, ?_, ?_, distinct_of_nodup hrun.nodup⟩
  · rw [hrun.sameWriter]
    exact hfresh.running
  · rw [hrun.sameWriter, hrun.sameVolume]
    exact hfresh.length
  · rw [thread_of_fresh hrun.fresh]
    exact fun hsome => nomatch hsome

theorem due_of_accepted {world next : World} {key name : String} {microseconds : Nat}
    (hstep : world.step (.notify key microseconds) = some (next, [.accepted key])) :
    Due key name next := by
  cases made_of_step hstep
  exact .queued (List.mem_append_right _ List.mem_cons_self)

/-- A thread that waits on an empty queue has nothing left to do for a signal but what is done. -/
theorem shown_of_due {world : World} {key name : String} (hname : world.nameOf key = some name)
    (hthread : world.thread = some .receiving) (hqueue : world.channel.queue = [])
    (hdue : Due key name world) :
    ∃ monitor value, world.site.monitor? key = some monitor ∧ monitor.current = .ok value ∧
      Holds world.site.writer world.site.volume monitor.name value := by
  cases hdue with
  | queued hmem =>
      rw [hqueue] at hmem
      cases hmem
  | collected hdraining =>
      rw [hthread] at hdraining
      cases hdraining
  | awaited hawaits =>
      rw [hthread] at hawaits
      exact hawaits.elim
  | read hwrites =>
      rw [hthread] at hwrites
      exact hwrites.elim
  | @shown value hreads hholds =>
      obtain ⟨monitor, hmonitor, hcurrent⟩ := hreads
      rw [World.nameOf, hmonitor] at hname
      cases hname
      exact ⟨monitor, value, hmonitor, hcurrent, hholds⟩
  | ended _ hover =>
      rw [hthread] at hover
      exact hover.elim

/-- Whenever the thread waits on an empty queue, the file shows what a source reads if a signal of
the source was accepted since it last changed. -/
theorem shown_at_rest {writer : Writer} {volume : Volume} {generation : UInt64} {key : String}
    {first asked accepting last : World}
    (hrun : SignalledRun writer volume generation key first asked accepting last)
    (hthread : last.thread = some .receiving) (hqueue : last.channel.queue = []) :
    ∃ monitor value, last.site.monitor? key = some monitor ∧ monitor.current = .ok value ∧
      Holds last.site.writer last.site.volume monitor.name value := by
  obtain ⟨layout, file, hfirst⟩ := hrun.steady
  obtain ⟨microseconds, hnotify⟩ := hrun.accepted
  have hasked := (steady_of_leads (fun _ => id) hfirst hrun.reached).1
  have haccepting := steady_of_step hasked ⟨by simp, by simp⟩ hnotify
  obtain ⟨name, hname⟩ :=
    Option.isSome_iff_exists.mp (accepted_of_step hnotify List.mem_cons_self).1
  rw [← nameOf_step hnotify] at hname
  have hdue := due_of_leads haccepting hname (due_of_accepted hnotify) hrun.proceeded
  have hnames := (steady_of_leads (fun _ hkeeps => hkeeps.1) haccepting hrun.proceeded).2
  exact shown_of_due (hnames ▸ hname) hthread hqueue hdue

theorem leads_of_steps {allowed : Move → Prop} {world last : World} {moves : List Move}
    {log : List Happening} (hmoves : ∀ move ∈ moves, allowed move)
    (hsteps : world.steps moves = some (last, log)) : Leads allowed world last := by
  have hlater : ∀ {first}, Leads allowed first world → Leads allowed first last := by
    induction moves generalizing world log with
    | nil =>
        cases hsteps
        exact id
    | cons move moves ih =>
        obtain ⟨next, happenings, later, hstep, hrest, rfl⟩ := exists_of_steps_cons hsteps
        have hallowed := hmoves move List.mem_cons_self
        intro first hleads
        exact ih (fun other hmem => hmoves other (List.mem_cons_of_mem _ hmem)) hrest
          (.move move hleads hallowed hstep)
  exact hlater .refl

/-- The writer of a count and a state once it is started, and the file that its start leaves. -/
def countAndStateStarted : Writer :=
  { countAndState with
    phase := .started
    layout := some planned
    file := some ⟨"m", ["m"], 290⟩
    generation := 7 }

def countAndStateFile : Volume :=
  (MappedFile.mk "m" ["m"] 290).replace ⟨[(["m"], .file (.zeros 290))]⟩ (Write.run (.zeros 290)
    (countAndState.format.structureWrites planned countAndState.metrics 7 ++
      [countAndState.format.publishWrite 7])).1

theorem started_countAndState : (countAndState.start .empty 7).writer = countAndStateStarted ∧
    (countAndState.start .empty 7).volume = countAndStateFile := by
  have hphase : countAndState.phase = .unstarted := rfl
  have hpath : countAndState.path = "m" := rfl
  rw [Writer.start, Writer.startBy, hphase, plan_countAndState]
  simp only [Writer.publish, hpath, create_m (show planned.length ≤ Volume.maxLength by decide)]
  exact ⟨rfl, rfl⟩

/-- A bridge that was just made for it, with a source for each of the two. -/
def countAndStateSources : World where
  site := { twoCounters.site with
    writer := countAndStateStarted
    volume := countAndStateFile
    monitors := [("count", .probe "count" (.ok (.i32 4))),
      ("state", .probe "state" (.ok (.str "busy")))] }
  owner := .idle

/-- The worlds before a signal, right after it and after later moves, with the answer to the
signal. -/
def signalledWorlds? (world : World) (key : String) (microseconds : Nat)
    (earlier later : List Move) : Option (World × World × World × List Happening) := do
  let (asked, _) ← world.steps earlier
  let (accepting, answer) ← asked.step (.notify key microseconds)
  let (last, _) ← accepting.steps later
  some (asked, accepting, last, answer)

theorem fresh_countAndStateSources : countAndStateSources.Fresh :=
  ⟨⟨⟨2, .ofSeconds 10, "bridge"⟩, rfl⟩, rfl⟩

/-- The source of the count changes after its first signal was taken, and is signalled again. Both
signals come into one batch. -/
theorem shown_countAndState : ∃ first asked accepting last,
    SignalledRun countAndState .empty 7 "count" first asked accepting last ∧
      last.thread = some .receiving ∧ last.channel.queue = [] ∧
      ∃ monitor value, last.site.monitor? "count" = some monitor ∧ monitor.current = .ok value ∧
        Holds last.site.writer last.site.volume monitor.name value := by
  let earlier : List Move := [.start, .notify "count" 0, .thread,
    .change "count" (.probe "count" (.ok (.i32 5)))]
  let later : List Move := List.replicate 7 .thread
  have hworlds : (signalledWorlds? countAndStateSources "count" 0 earlier later).map
      (fun worlds => (worlds.2.2.2, worlds.2.2.1.thread, worlds.2.2.1.channel.queue)) =
      some ([.accepted "count"], some .receiving, []) := by
    decide +kernel
  have hbefore : ∀ move ∈ earlier, KeepsWriter move := by simp [earlier, KeepsWriter]
  have hafter : ∀ move ∈ later, KeepsSource "count" move := by
    simp [later, KeepsSource, KeepsWriter]
  obtain ⟨worlds, hfound, hshown⟩ := Option.map_eq_some_iff.mp hworlds
  simp only [signalledWorlds?, Option.bind_eq_bind, Option.bind_eq_some_iff] at hfound
  obtain ⟨⟨asked, _⟩, hearlier, ⟨accepting, answer⟩, hnotify, ⟨last, _⟩, hlater, hall⟩ := hfound
  cases hall
  simp only [Prod.mk.injEq] at hshown
  obtain ⟨rfl, hthread, hqueue⟩ := hshown
  have hrun : SignalledRun countAndState .empty 7 "count" countAndStateSources asked accepting
      last := by
    constructor
    · exact reachable_countAndState
    · exact start_countAndState
    · exact fresh_countAndStateSources
    · exact started_countAndState.1.symm
    · exact started_countAndState.2.symm
    · decide
    · exact leads_of_steps hbefore hearlier
    · exact ⟨0, hnotify⟩
    · exact leads_of_steps hafter hlater
  exact ⟨_, _, _, _, hrun, hthread, hqueue, shown_at_rest hrun hthread hqueue⟩

end MappedMetrics.Proofs.ValuesAtRest
