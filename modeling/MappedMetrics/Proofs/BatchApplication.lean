import MappedMetrics.Proofs.BatchGrowth
import MappedMetrics.Proofs.ValuesAtRest

/-!
A batch as the thread of the bridge applies it. Only the first signal of each name leads to an
update, and the file, the result and all later signals are none the worse for it: an update that
comes again with the same value writes the bytes that are already there.
-/

namespace MappedMetrics.Proofs.BatchApplication

open MappedMetrics
open MappedMetrics.Proofs.StartedFiles
open MappedMetrics.Proofs.WriterCalls
open MappedMetrics.Proofs.UpdateFrames
open MappedMetrics.Proofs.BridgeInterleaving
open MappedMetrics.Proofs.BridgeEffects
open MappedMetrics.Proofs.SignalAccounting
open MappedMetrics.Proofs.BatchGrowth
open MappedMetrics.Proofs.ValuesAtRest

section Updates

variable {writer : Writer} {layout : Layout} {file : MappedFile} {volume next : Volume}
  {name : String} {value : MetricValue}

theorem map_updated (hrunning : Running writer layout file)
    (hlength : (mapped writer volume).length = layout.length) (name : String)
    (value : MetricValue) :
    (writer.updated volume name value).map (mapped writer) =
      (writer.encoded name value).map fun (offset, data) =>
        Bytes.overwrite (mapped writer volume) offset data := by
  rcases updateMetric_cases hrunning volume name value with
    ⟨entry, hmem, -, laid, hput, hencoded, hreply⟩ | ⟨fault, hencoded, hreply⟩
  · rw [Writer.updateMetric] at hreply
    cases hupdated : writer.updated volume name value with
    | ok next =>
        rw [hupdated] at hreply
        obtain ⟨-, rfl, -, -⟩ := Writer.Reply.mk.inj hreply
        rw [hencoded]
        exact congrArg Except.ok (mapped_store hrunning hlength hmem (length_of_zeroed hput))
    | error fault =>
        rw [hupdated] at hreply
        cases congrArg Writer.Reply.result hreply
  · rw [Writer.updateMetric] at hreply
    cases hupdated : writer.updated volume name value with
    | ok next =>
        rw [hupdated] at hreply
        cases congrArg Writer.Reply.result hreply
    | error refused =>
        rw [hupdated] at hreply
        obtain rfl := Except.error.inj (congrArg Writer.Reply.result hreply)
        rw [hencoded]
        rfl

theorem fits_of_encoded (hrunning : Running writer layout file) {offset : Nat} {data : Bytes}
    (hencoded : writer.encoded name value = .ok (offset, data)) :
    offset + data.length ≤ layout.length := by
  obtain ⟨entry, hmem, -, rfl, hdata⟩ := slot_of_encoded hrunning hencoded
  rw [hdata]
  exact hrunning.slotted.inside entry hmem

theorem mapped_updated (hrunning : Running writer layout file)
    (hlength : (mapped writer volume).length = layout.length)
    (hupdated : writer.updated volume name value = .ok next) :
    ∃ offset data, writer.encoded name value = .ok (offset, data) ∧
      offset + data.length ≤ (mapped writer volume).length ∧
      mapped writer next = Bytes.overwrite (mapped writer volume) offset data := by
  have hmap := map_updated hrunning hlength name value
  rw [hupdated] at hmap
  cases hencoded : writer.encoded name value with
  | ok made =>
      rw [hencoded] at hmap
      refine ⟨made.1, made.2, rfl, ?_, Except.ok.inj hmap⟩
      rw [hlength]
      exact fits_of_encoded hrunning hencoded
  | error fault =>
      rw [hencoded] at hmap
      cases hmap

theorem overwrite_slice {bytes data : Bytes} {offset : Nat}
    (hslice : Bytes.slice bytes offset data.length = data) :
    Bytes.overwrite bytes offset data = bytes := by
  have hsplit : data ++ (bytes.drop offset).drop data.length = bytes.drop offset :=
    (congrArg (· ++ (bytes.drop offset).drop data.length) hslice.symm).trans
      (List.take_append_drop ..)
  rw [Bytes.overwrite, ← List.drop_drop, hsplit, List.take_append_drop]

/-- An update changes nothing where its value is held already. -/
theorem updated_of_holds (hrunning : Running writer layout file)
    (hlength : (mapped writer volume).length = layout.length)
    (hholds : Holds writer volume name value) :
    ∃ next, writer.updated volume name value = .ok next ∧
      mapped writer next = mapped writer volume := by
  obtain ⟨offset, data, hencoded, hslice⟩ := hholds
  have hmap := map_updated hrunning hlength name value
  rw [hencoded] at hmap
  cases hupdated : writer.updated volume name value with
  | ok next =>
      rw [hupdated] at hmap
      exact ⟨next, rfl, (Except.ok.inj hmap).trans (overwrite_slice hslice)⟩
  | error fault =>
      rw [hupdated] at hmap
      cases hmap

end Updates

section Applications

/-- What updates come to that are made one after the other, up to the first that fails. -/
structure Application where
  volume : Volume
  /-- The updates that were called for, and those of them that succeeded. -/
  calls : List Update
  done : List Update
  result : Outcome Unit

def applyEach (writer : Writer) (volume : Volume) : List Update → Application
  | [] => ⟨volume, [], [], .ok ()⟩
  | (name, value) :: rest =>
      let reply := writer.updateMetric volume name value
      match reply.result with
      | .ok () =>
          let later := applyEach writer reply.volume rest
          ⟨later.volume, (name, value) :: later.calls, (name, value) :: later.done, later.result⟩
      | .error fault => ⟨reply.volume, [(name, value)], [], .error fault⟩

/-- The updates of names with the values that their sources read. -/
def reading (values : String → MetricValue) (names : List String) : List Update :=
  names.map fun name => (name, values name)

theorem reading_cons (values : String → MetricValue) (name : String) (names : List String) :
    reading values (name :: names) = (name, values name) :: reading values names := rfl

/-- The names of a list that were not seen, each where it first occurs. -/
def firsts (seen : List String) : List String → List String
  | [] => []
  | name :: names =>
      if name ∈ seen then firsts seen names else name :: firsts (name :: seen) names

variable {writer : Writer} {layout : Layout} {file : MappedFile} {volume next : Volume}
  {name : String} {value : MetricValue} {values : String → MetricValue} {seen names : List String}

theorem firsts_eq (seen names : List String) :
    firsts seen names = (names.filter fun name => name ∉ seen).eraseDups := by
  induction names generalizing seen with
  | nil => rfl
  | cons name names ih =>
      rw [firsts]
      by_cases hseen : name ∈ seen
      · rw [if_pos hseen, ih, List.filter_cons_of_neg (by simpa using hseen)]
      · rw [if_neg hseen, ih, List.filter_cons_of_pos (by simpa using hseen), List.eraseDups_cons,
          List.filter_filter]
        congr 2
        refine List.filter_congr fun other _ => ?_
        rw [Bool.eq_iff_iff]
        simp

theorem firsts_nil (names : List String) : firsts [] names = names.eraseDups := by
  rw [firsts_eq, List.filter_eq_self.mpr fun _ _ => by simp]

theorem not_mem_of_mem_firsts (hmem : name ∈ firsts seen names) : name ∉ seen := by
  rw [firsts_eq, List.mem_eraseDups, List.mem_filter] at hmem
  simpa using hmem.2

theorem nodup_firsts (seen names : List String) : (firsts seen names).Nodup := by
  induction names generalizing seen with
  | nil => exact List.nodup_nil
  | cons name names ih =>
      rw [firsts]
      split
      · exact ih seen
      · refine List.nodup_cons.mpr ⟨fun hmem => ?_, ih (name :: seen)⟩
        exact not_mem_of_mem_firsts hmem List.mem_cons_self

theorem applyEach_of_ok (hupdated : writer.updated volume name value = .ok next)
    (rest : List Update) : applyEach writer volume ((name, value) :: rest) =
      ⟨(applyEach writer next rest).volume, (name, value) :: (applyEach writer next rest).calls,
        (name, value) :: (applyEach writer next rest).done,
        (applyEach writer next rest).result⟩ := by
  simp only [applyEach, Writer.updateMetric, hupdated]

theorem applyEach_of_error {fault : Fault}
    (hupdated : writer.updated volume name value = .error fault) (rest : List Update) :
    applyEach writer volume ((name, value) :: rest) =
      ⟨volume, [(name, value)], [], .error fault⟩ := by
  simp only [applyEach, Writer.updateMetric, hupdated]

theorem holds_congr {other : Volume} (hsame : mapped writer other = mapped writer volume)
    (hholds : Holds writer volume name value) : Holds writer other name value := by
  obtain ⟨offset, data, hencoded, hslice⟩ := hholds
  exact ⟨offset, data, hencoded, hsame ▸ hslice⟩

theorem updated_alike (hrunning : Running writer layout file) {other : Volume}
    (hlength : (mapped writer volume).length = layout.length)
    (hsame : mapped writer other = mapped writer volume) (name : String) (value : MetricValue) :
    (∃ next later, writer.updated volume name value = .ok next ∧
        writer.updated other name value = .ok later ∧ mapped writer later = mapped writer next) ∨
      ∃ fault, writer.updated volume name value = .error fault ∧
        writer.updated other name value = .error fault := by
  have hmap := map_updated hrunning hlength name value
  have hother := map_updated hrunning (hsame ▸ hlength) name value
  rw [hsame, ← hmap] at hother
  cases hupdated : writer.updated volume name value with
  | ok next =>
      cases hlater : writer.updated other name value with
      | ok later =>
          rw [hupdated, hlater] at hother
          exact .inl ⟨next, later, rfl, rfl, Except.ok.inj hother⟩
      | error fault =>
          rw [hupdated, hlater] at hother
          cases hother
  | error fault =>
      cases hlater : writer.updated other name value with
      | ok later =>
          rw [hupdated, hlater] at hother
          cases hother
      | error refused =>
          rw [hupdated, hlater] at hother
          exact .inr ⟨fault, rfl, congrArg Except.error (Except.error.inj hother)⟩

/-- To make an update for each name that was not seen comes to the same as to make one for each
signal, as long as the names that were seen are held. -/
theorem applyEach_firsts (hrunning : Running writer layout file) {other : Volume}
    (hlength : (mapped writer volume).length = layout.length)
    (hsame : mapped writer other = mapped writer volume)
    (hheld : ∀ name ∈ seen, Holds writer volume name (values name)) :
    (applyEach writer volume (reading values names)).result =
        (applyEach writer other (reading values (firsts seen names))).result ∧
      mapped writer (applyEach writer volume (reading values names)).volume =
        mapped writer (applyEach writer other (reading values (firsts seen names))).volume := by
  induction names generalizing seen volume other with
  | nil => exact ⟨rfl, hsame.symm⟩
  | cons name names ih =>
      rw [firsts, reading_cons]
      split
      · rename_i hseen
        -- The update that is left out would have changed nothing.
        obtain ⟨next, hupdated, hnext⟩ := updated_of_holds hrunning hlength (hheld name hseen)
        rw [applyEach_of_ok hupdated]
        exact ih (hnext ▸ hlength) (hsame.trans hnext.symm)
          fun seen hmem => holds_congr hnext (hheld seen hmem)
      · rename_i hfresh
        rw [reading_cons]
        rcases updated_alike hrunning hlength hsame name (values name) with
          ⟨next, later, hupdated, hlater, halike⟩ | ⟨fault, hupdated, hlater⟩
        · obtain ⟨hkept, hwritten, hothers⟩ := updated_cases hrunning hlength hupdated
          rw [applyEach_of_ok hupdated, applyEach_of_ok hlater]
          refine ih hkept halike fun shown hmem => ?_
          rcases List.mem_cons.mp hmem with rfl | hseen
          · exact hwritten
          · refine hothers shown _ ?_ (hheld shown hseen)
            rintro rfl
            exact hfresh hseen
        · rw [applyEach_of_error hupdated, applyEach_of_error hlater]
          exact ⟨rfl, hsame.symm⟩

theorem applyEach_cases (writer : Writer) (volume : Volume) (updates : List Update) :
    ((applyEach writer volume updates).result = .ok () ∧
      (applyEach writer volume updates).calls = updates ∧
      (applyEach writer volume updates).done = updates) ∨
    ∃ fault update, (applyEach writer volume updates).result = .error fault ∧
      (applyEach writer volume updates).calls <+: updates ∧
      (applyEach writer volume updates).calls =
        (applyEach writer volume updates).done ++ [update] ∧
      writer.updated (applyEach writer volume updates).volume update.1 update.2 =
        .error fault := by
  induction updates generalizing volume with
  | nil => exact .inl ⟨rfl, rfl, rfl⟩
  | cons update rest ih =>
      obtain ⟨name, value⟩ := update
      cases hupdated : writer.updated volume name value with
      | ok next =>
          rw [applyEach_of_ok hupdated]
          refine (ih next).imp ?_ ?_
          · rintro ⟨hresult, hcalls, hdone⟩
            exact ⟨hresult, congrArg _ hcalls, congrArg _ hdone⟩
          · rintro ⟨fault, update, hresult, hfront, hcalls, hfailed⟩
            exact ⟨fault, update, hresult, (List.prefix_cons_inj _).mpr hfront,
              congrArg _ hcalls, hfailed⟩
      | error fault =>
          rw [applyEach_of_error hupdated]
          exact .inr ⟨fault, (name, value), rfl, List.prefix_append [(name, value)] rest, rfl,
            hupdated⟩

theorem done_front (writer : Writer) (volume : Volume) (updates : List Update) :
    (applyEach writer volume updates).done <+: updates := by
  rcases applyEach_cases writer volume updates with ⟨-, -, hdone⟩ | ⟨_, _, -, hfront, hcalls, -⟩
  · exact hdone.symm ▸ List.prefix_rfl
  · exact (hcalls ▸ List.prefix_append _ _).trans hfront

/-- What updates that were made leave of the file: the names that were updated hold their values,
and the rest is as before. -/
structure Left (writer : Writer) (before after : Volume) (done : List Update) : Prop where
  holds : ∀ update ∈ done, Holds writer after update.1 update.2
  others : ∀ name shown, name ∉ done.map Prod.fst → Holds writer before name shown →
    Holds writer after name shown
  frame : ∀ i, (∀ update ∈ done, ∀ offset data,
      writer.encoded update.1 update.2 = .ok (offset, data) →
      i < offset ∨ offset + data.length ≤ i) →
    (mapped writer after)[i]? = (mapped writer before)[i]?

theorem left_applyEach (hrunning : Running writer layout file)
    (hlength : (mapped writer volume).length = layout.length) {updates : List Update}
    (hnodup : (updates.map Prod.fst).Nodup) :
    Left writer volume (applyEach writer volume updates).volume
      (applyEach writer volume updates).done := by
  induction updates generalizing volume with
  | nil => exact ⟨List.forall_mem_nil _, fun _ _ _ => id, fun _ _ => rfl⟩
  | cons update rest ih =>
      obtain ⟨name, value⟩ := update
      obtain ⟨hfresh, hrest⟩ := List.nodup_cons.mp hnodup
      cases hupdated : writer.updated volume name value with
      | error fault =>
          rw [applyEach_of_error hupdated]
          exact ⟨List.forall_mem_nil _, fun _ _ _ => id, fun _ _ => rfl⟩
      | ok next =>
          rw [applyEach_of_ok hupdated]
          obtain ⟨hkept, hwritten, hothers⟩ := updated_cases hrunning hlength hupdated
          have hlater := ih hkept hrest
          have hnot : name ∉ (applyEach writer next rest).done.map Prod.fst := fun hmem =>
            hfresh (((done_front writer next rest).map Prod.fst).subset hmem)
          refine ⟨List.forall_mem_cons.mpr ⟨?_, hlater.holds⟩, ?_, ?_⟩
          · exact hlater.others name value hnot hwritten
          · intro other shown hother hholds
            rw [List.map_cons, List.mem_cons, not_or] at hother
            exact hlater.others other shown hother.2 (hothers other shown hother.1 hholds)
          · intro i hout
            obtain ⟨hhead, htail⟩ := List.forall_mem_cons.mp hout
            obtain ⟨offset, data, hencoded, hfits, hmapped⟩ :=
              mapped_updated hrunning hlength hupdated
            rw [hlater.frame i htail, hmapped]
            exact Bytes.getElem?_overwrite_of_not_mem hfits (hhead offset data hencoded)

end Applications

section Threads

/-- The updates that the thread called for, and those of them that succeeded. -/
def called (log : List Happening) : List Update :=
  log.filterMap fun
    | .read _ name value => some (name, value)
    | _ => none

def succeeded (log : List Happening) : List Update :=
  log.filterMap fun
    | .wrote name value => some (name, value)
    | _ => none

/-- The thread applies a batch. -/
def Busy : Option Stage → Prop
  | some (.applying ..) | some (.writing ..) => True
  | _ => False

/-- Every signal that is left of the batch reads the value of its name. -/
def Reading (values : String → MetricValue) (world : World) : Prop :=
  ∀ key ∈ remaining world.thread, ∃ monitor, world.site.monitor? key = some monitor ∧
    monitor.current = .ok (values monitor.name)

/-- The worlds that moves lead to while the thread applies a batch and nothing else touches the
writer. The sources may change as long as what is left of the batch reads the same. -/
inductive Applies (values : String → MetricValue) (first : World) :
    List Move → List Happening → World → Prop where
  | refl : Applies values first [] [] first
  | step {moves : List Move} {log happenings : List Happening} {world next : World} (move : Move) :
      Applies values first moves log world → Busy world.thread → Reading values world →
        KeepsWriter move → world.step move = some (next, happenings) →
          Applies values first (moves ++ [move]) (log ++ happenings) next

/-- The stage after a batch, by what its updates came to. -/
def stageAfter (shutdown : Bool) : Outcome Unit → Stage
  | .ok () => .checking shutdown
  | .error (.refused (.lifecycle .stopped)) => .leaving .done
  | .error (.refused error) => .leaving (.failed error)
  | .error (.halted _) => .leaving (.gaveUp none)

/-- The application with updates that were made before it. -/
def Application.after (done : List Update) (application : Application) : Application :=
  { application with calls := done ++ application.calls, done := done ++ application.done }

/-- Where the thread is in a batch that comes to an application as a whole: the files, the updates
that it called for and those that succeeded are such that what is left comes to the rest. -/
inductive Phase (writer : Writer) (values : String → MetricValue) (shutdown : Bool)
    (whole : Application) (nameOf : String → Option String) :
    Stage → Volume → List Update → List Update → Prop where
  | applying {batch seen : List String} {volume : Volume} {done : List Update} :
      whole = (applyEach writer volume
        (reading values (firsts seen (batch.filterMap nameOf)))).after done →
        Phase writer values shutdown whole nameOf (.applying shutdown batch seen) volume done done
  | writing {batch seen : List String} {name : String} {volume : Volume} {done : List Update} :
      whole = (applyEach writer volume
        (reading values (name :: firsts seen (batch.filterMap nameOf)))).after done →
        Phase writer values shutdown whole nameOf
          (.writing shutdown batch seen name (values name)) volume
          (done ++ [(name, values name)]) done
  | finished {stage : Stage} {volume : Volume} {calls done : List Update} :
      stage = stageAfter shutdown whole.result → volume = whole.volume → calls = whole.calls →
      done = whole.done → Phase writer values shutdown whole nameOf stage volume calls done

variable {world next : World} {writer : Writer} {values : String → MetricValue} {shutdown : Bool}
  {whole : Application} {calls done : List Update} {happenings : List Happening}
  {batch seen : List String} {name : String}

theorem Phase.of_not_busy {nameOf : String → Option String} {stage : Stage} {volume : Volume}
    (hphase : Phase writer values shutdown whole nameOf stage volume calls done)
    (hover : ¬ Busy (some stage)) : stage = stageAfter shutdown whole.result ∧
      volume = whole.volume ∧ calls = whole.calls ∧ done = whole.done := by
  cases hphase with
  | applying | writing => exact absurd trivial hover
  | finished hstage hvolume hcalls hdone => exact ⟨hstage, hvolume, hcalls, hdone⟩

theorem step_of_busy {stage : Stage} (hthread : world.thread = some stage) {site : Site}
    {events : List Event} (hstep : world.site.stepFrom stage = some (site, events)) :
    world.step .thread =
      some ({ world with site }, (site.bridge.thread.map (report stage)).getD []) := by
  have hthread' : world.site.bridge.thread = some stage := hthread
  simp only [World.step, Site.step, hthread', hstep]

theorem phase_of_applying (hreading : Reading values world)
    (hthread : world.thread = some (.applying shutdown batch seen))
    (hwhole : whole = (applyEach writer world.site.volume
      (reading values (firsts seen (batch.filterMap world.nameOf)))).after done)
    (hstep : world.step .thread = some (next, happenings)) :
    ∃ stage, next.thread = some stage ∧
      Phase writer values shutdown whole world.nameOf stage next.site.volume
        (done ++ called happenings) (done ++ succeeded happenings) := by
  cases batch with
  | nil =>
      subst hwhole
      rw [step_of_busy hthread rfl] at hstep
      cases hstep
      exact ⟨_, rfl, .finished rfl rfl rfl rfl⟩
  | cons key batch =>
      obtain ⟨monitor, hmonitor, hcurrent⟩ :=
        hreading key (by rw [hthread]; exact List.mem_cons_self)
      have hname : world.nameOf key = some monitor.name := by
        rw [World.nameOf, hmonitor, Option.map_some]
      rw [List.filterMap_cons_some hname, firsts] at hwhole
      -- A signal is skipped exactly where `firsts` leaves its name out.
      by_cases hseen : monitor.name ∈ seen
      · have hskip : world.site.stepFrom (.applying shutdown (key :: batch) seen) =
            some (world.site.enter (.applying shutdown batch seen), []) := by
          simp only [Site.stepFrom, Site.stepApplying, hmonitor, List.contains_iff_mem.mpr hseen,
            if_true]
        rw [step_of_busy hthread hskip] at hstep
        cases hstep
        rw [if_pos hseen] at hwhole
        refine ⟨_, rfl, ?_⟩
        change Phase _ _ _ _ _ _ _ (done ++ []) (done ++ [])
        rw [List.append_nil]
        exact .applying hwhole
      · have hread : world.site.stepFrom (.applying shutdown (key :: batch) seen) =
            some (world.site.enter (.writing shutdown batch (monitor.name :: seen) monitor.name
              (values monitor.name)), []) := by
          simp only [Site.stepFrom, Site.stepApplying, hmonitor, List.contains_iff_mem, hseen,
            if_false, hcurrent]
        rw [step_of_busy hthread hread] at hstep
        cases hstep
        rw [if_neg hseen] at hwhole
        refine ⟨_, rfl, ?_⟩
        change Phase _ _ _ _ _ _ _ (done ++ [(monitor.name, values monitor.name)]) (done ++ [])
        rw [List.append_nil]
        exact .writing hwhole

theorem stepWriting_of_error {site : Site} {value : MetricValue} {fault : Fault}
    (hupdated : site.writer.updated site.volume name value = .error fault) (shutdown : Bool)
    (batch seen : List String) : ∃ ending events, stageAfter shutdown (.error fault) =
        .leaving ending ∧
      site.stepWriting shutdown batch seen name value = (site.enter (.leaving ending), events) := by
  simp only [Site.stepWriting, hupdated]
  rcases fault with error | halt
  · cases error with
    | lifecycle cause => cases cause <;> exact ⟨_, _, rfl, rfl⟩
    | _ => exact ⟨_, _, rfl, rfl⟩
  · exact ⟨_, _, rfl, rfl⟩

theorem phase_of_writing (hwriter : world.site.writer = writer)
    (hthread : world.thread = some (.writing shutdown batch seen name (values name)))
    (hwhole : whole = (applyEach writer world.site.volume
      (reading values (name :: firsts seen (batch.filterMap world.nameOf)))).after done)
    (hstep : world.step .thread = some (next, happenings)) :
    ∃ stage, next.thread = some stage ∧
      Phase writer values shutdown whole world.nameOf stage next.site.volume
        (done ++ [(name, values name)] ++ called happenings) (done ++ succeeded happenings) := by
  rw [reading_cons] at hwhole
  cases hupdated : world.site.writer.updated world.site.volume name (values name) with
  | ok volume =>
      have hwrite : world.site.stepFrom (.writing shutdown batch seen name (values name)) =
          some (Site.enter
            { world.site with
              volume := volume
              bridge := { world.site.bridge with applied := world.site.bridge.applied + 1 } }
            (.applying shutdown batch seen), []) := by
        simp only [Site.stepFrom, Site.stepWriting, hupdated]
      rw [step_of_busy hthread hwrite] at hstep
      cases hstep
      rw [applyEach_of_ok (hwriter ▸ hupdated)] at hwhole
      refine ⟨_, rfl, ?_⟩
      change Phase _ _ _ _ _ _ _ (done ++ [(name, values name)] ++ [])
        (done ++ [(name, values name)])
      rw [List.append_nil]
      refine .applying (hwhole.trans ?_)
      simp only [Application.after, List.append_assoc, List.singleton_append]
      rfl
  | error fault =>
      rw [applyEach_of_error (hwriter ▸ hupdated)] at hwhole
      subst hwhole
      obtain ⟨ending, events, hstage, hfail⟩ := stepWriting_of_error hupdated shutdown batch seen
      rw [step_of_busy hthread (congrArg some hfail)] at hstep
      cases hstep
      refine ⟨.leaving ending, rfl, .finished hstage.symm rfl (List.append_nil _) rfl⟩

end Threads

section Moves

variable {world next first middle last : World} {move : Move} {moves more : List Move}
  {happenings log later : List Happening} {values : String → MetricValue} {shutdown : Bool}
  {whole : Application}

theorem called_append (log later : List Happening) :
    called (log ++ later) = called log ++ called later :=
  List.filterMap_append

theorem succeeded_append (log later : List Happening) :
    succeeded (log ++ later) = succeeded log ++ succeeded later :=
  List.filterMap_append

theorem applied_add_succeeded (hstep : world.step move = some (next, happenings)) :
    next.site.bridge.applied =
      world.site.bridge.applied + UInt64.ofNat (succeeded happenings).length := by
  obtain ⟨name, value, rfl, -, happlied⟩ | ⟨hquiet, happlied⟩ := wrote_of_step hstep
  · exact happlied
  · have hnone : succeeded happenings = [] := by
      refine List.filterMap_eq_nil_iff.mpr fun happening hmem => ?_
      cases happening with
      | wrote name value => exact absurd hmem (hquiet name value)
      | _ => rfl
    rw [happlied, hnone]
    exact (UInt64.add_zero _).symm

theorem quiet_of_other (hmove : move ≠ .thread)
    (hstep : world.step move = some (next, happenings)) :
    called happenings = [] ∧ succeeded happenings = [] := by
  cases made_of_step hstep with
  | advanced => exact absurd rfl hmove
  | _ => exact ⟨rfl, rfl⟩

theorem thread_of_other (hmove : move ≠ .thread) (hbusy : Busy world.thread)
    (hstep : world.step move = some (next, happenings)) : next.thread = world.thread := by
  rcases (outside_of_step hmove hstep).thread with hsame | ⟨hnone, -⟩ | ⟨ending, hended, -⟩
  · exact hsame
  · rw [hnone] at hbusy
    exact hbusy.elim
  · rw [hended] at hbusy
    exact hbusy.elim

theorem not_busy_stageAfter (shutdown : Bool) (result : Outcome Unit) :
    ¬ Busy (some (stageAfter shutdown result)) := by
  unfold stageAfter
  split <;> exact id

/-- What every move keeps while the batch is applied. -/
structure Underway (values : String → MetricValue) (shutdown : Bool) (whole : Application)
    (first world : World) (log : List Happening) : Prop where
  writer : world.site.writer = first.site.writer
  names : world.nameOf = first.nameOf
  applied : world.site.bridge.applied =
    first.site.bridge.applied + UInt64.ofNat (succeeded log).length
  phase : ∃ stage, world.thread = some stage ∧
    Phase first.site.writer values shutdown whole first.nameOf stage world.site.volume (called log)
      (succeeded log)

theorem phase_of_step (hunderway : Underway values shutdown whole first world log)
    (hbusy : Busy world.thread) (hreading : Reading values world)
    (hstep : world.step move = some (next, happenings)) :
    ∃ stage, next.thread = some stage ∧
      Phase first.site.writer values shutdown whole first.nameOf stage next.site.volume
        (called (log ++ happenings)) (succeeded (log ++ happenings)) := by
  obtain ⟨stage, hthread, hphase⟩ := hunderway.phase
  rw [called_append, succeeded_append]
  by_cases hmove : move = .thread
  · subst hmove
    rw [← hunderway.names] at hphase ⊢
    generalize called log = calls at hphase ⊢
    generalize succeeded log = done at hphase ⊢
    generalize hvolume : world.site.volume = volume at hphase
    cases hphase with
    | applying hwhole =>
        exact phase_of_applying hreading hthread (hvolume ▸ hwhole) hstep
    | writing hwhole =>
        exact phase_of_writing hunderway.writer hthread (hvolume ▸ hwhole) hstep
    | finished hover =>
        rw [hthread, hover] at hbusy
        exact absurd hbusy (not_busy_stageAfter _ _)
  · obtain ⟨hcalled, hsucceeded⟩ := quiet_of_other hmove hstep
    rw [hcalled, hsucceeded, List.append_nil, List.append_nil, thread_of_other hmove hbusy hstep,
      (outside_of_step hmove hstep).volume]
    exact ⟨stage, hthread, hphase⟩

theorem underway_of_step (hunderway : Underway values shutdown whole first world log)
    (hbusy : Busy world.thread) (hreading : Reading values world) (hkeeps : KeepsWriter move)
    (hstep : world.step move = some (next, happenings)) :
    Underway values shutdown whole first next (log ++ happenings) where
  writer := (writer_of_step hkeeps.1 hkeeps.2 hstep).trans hunderway.writer
  names := (nameOf_step hstep).trans hunderway.names
  applied := by
    rw [applied_add_succeeded hstep, hunderway.applied, succeeded_append, List.length_append,
      UInt64.ofNat_add, UInt64.add_assoc]
  phase := phase_of_step hunderway hbusy hreading hstep

theorem underway_of_applies (hunderway : Underway values shutdown whole first first [])
    (happlies : Applies values first moves log last) :
    Underway values shutdown whole first last log := by
  induction happlies with
  | refl => exact hunderway
  | step move _ hbusy hreading hkeeps hstep ih =>
      exact underway_of_step ih hbusy hreading hkeeps hstep

/-- The steps that a batch still takes at most: two for each signal, and one to see its end. -/
def left : Option Stage → Nat
  | some (.applying _ batch _) => 2 * batch.length + 1
  | some (.writing _ batch _ _ _) => 2 * batch.length + 2
  | _ => 0

theorem left_lt_of_thread (hbusy : Busy world.thread)
    (hstep : world.step .thread = some (next, happenings)) :
    left next.thread < left world.thread ∧ remaining next.thread ⊆ remaining world.thread := by
  obtain ⟨stage, after, hadvanced, -⟩ := advanced_of_step hstep
  rw [hadvanced.left] at hbusy ⊢
  rw [hadvanced.reached]
  have hadvance := hadvanced.advance
  generalize next.channel = channel at hadvance
  generalize report stage after = happenings at hadvance
  cases hadvance with
  | skip | read =>
      refine ⟨?_, List.subset_cons_self _ _⟩
      simp only [left, List.length_cons]
      omega
  | write => exact ⟨Nat.lt_succ_self _, List.Subset.refl _⟩
  | applied | giveUp | fail => exact ⟨Nat.succ_pos _, List.nil_subset _⟩
  | _ => exact hbusy.elim

theorem left_of_applies (happlies : Applies values first moves log last) :
    threadSteps moves + left last.thread ≤ left first.thread := by
  induction happlies with
  | refl => exact Nat.le_of_eq (Nat.zero_add _)
  | @step moves log happenings world next move _ hbusy _ _ hstep ih =>
      have happend : threadSteps (moves ++ [move]) = threadSteps moves + threadSteps [move] :=
        List.countP_append
      by_cases hmove : move = .thread
      · subst hmove
        have hlt := (left_lt_of_thread hbusy hstep).1
        have hone : threadSteps [.thread] = 1 := rfl
        omega
      · rw [happend, threadSteps_of_ne hmove, thread_of_other hmove hbusy hstep]
        exact ih

theorem Applies.trans (hfirst : Applies values first moves log middle)
    (hlast : Applies values middle more later last) :
    Applies values first (moves ++ more) (log ++ later) last := by
  induction hlast with
  | refl => rwa [List.append_nil, List.append_nil]
  | step move _ hbusy hreading hkeeps hstep ih =>
      rw [← List.append_assoc, ← List.append_assoc]
      exact .step move ih hbusy hreading hkeeps hstep

theorem exists_step (hbusy : Busy world.thread) :
    ∃ next happenings, world.step .thread = some (next, happenings) := by
  rcases hthread : world.thread with _ | stage
  · rw [hthread] at hbusy
    exact hbusy.elim
  · rw [hthread] at hbusy
    cases stage with
    | applying | writing => exact ⟨_, _, step_of_busy hthread rfl⟩
    | _ => exact hbusy.elim

theorem reading_of_thread (hbusy : Busy world.thread) (hreading : Reading values world)
    (hstep : world.step .thread = some (next, happenings)) : Reading values next := by
  intro key hmem
  obtain ⟨monitor, hmonitor, hcurrent⟩ := hreading key ((left_lt_of_thread hbusy hstep).2 hmem)
  exact ⟨monitor, by rwa [monitor?_of_step (by simp) hstep], hcurrent⟩

/-- By itself the thread comes to the end of the batch. -/
theorem exists_applies (hreading : Reading values world) :
    ∃ moves log last, (∀ move ∈ moves, move = .thread) ∧ Applies values world moves log last ∧
      ¬ Busy last.thread := by
  induction hleft : left world.thread using Nat.strongRecOn generalizing world with
  | _ n ih =>
      by_cases hbusy : Busy world.thread
      · obtain ⟨next, happenings, hstep⟩ := exists_step hbusy
        obtain ⟨moves, log, last, hmoves, happlies, hover⟩ :=
          ih _ (hleft ▸ (left_lt_of_thread hbusy hstep).1) (reading_of_thread hbusy hreading hstep)
            rfl
        exact ⟨_, _, last, List.forall_mem_cons.mpr ⟨rfl, hmoves⟩,
          Applies.trans (.step .thread .refl hbusy hreading (by simp [KeepsWriter]) hstep) happlies,
          hover⟩
      · exact ⟨[], [], world, List.forall_mem_nil _, .refl, hbusy⟩

end Moves

section Batches

variable {writer : Writer} {volume : Volume} {generation : UInt64}
  {values : String → MetricValue} {shutdown : Bool} {batch : List String} {first last : World}
  {moves : List Move} {log : List Happening}

/-- The thread has just taken a batch, and its writer was started. -/
structure Begun (writer : Writer) (volume : Volume) (generation : UInt64) (shutdown : Bool)
    (batch : List String) (first : World) : Prop where
  reachable : Reachable writer
  start : (writer.start volume generation).result = .ok ()
  sameWriter : first.site.writer = (writer.start volume generation).writer
  /-- The mapping is as long as it was made, whatever has been stored in it since. -/
  length : (mapped first.site.writer first.site.volume).length =
    (mapped first.site.writer (writer.start volume generation).volume).length
  thread : first.thread = some (.applying shutdown batch [])

/-- What one update for each signal of a batch would come to, made one after the other. -/
def eachSignal (values : String → MetricValue) (batch : List String) (first : World) :
    Application :=
  applyEach first.site.writer first.site.volume (reading values (batch.filterMap first.nameOf))

/-- What a batch comes to for which each name was updated once. -/
structure Coalesced (values : String → MetricValue) (shutdown : Bool) (batch : List String)
    (first last : World) (log : List Happening) : Prop where
  /-- The file and the result are those of one update for each signal. -/
  bytes : mapped first.site.writer last.site.volume =
    mapped first.site.writer (eachSignal values batch first).volume
  stage : last.thread = some (stageAfter shutdown (eachSignal values batch first).result)
  /-- Without a failure each name is updated, in the order in which names come first in a batch. -/
  complete : (eachSignal values batch first).result = .ok () →
    called log = reading values (batch.filterMap first.nameOf).eraseDups ∧
      succeeded log = called log
  /-- With a failure the last name that is updated is the one before the first that fails. -/
  stopped : ∀ fault, (eachSignal values batch first).result = .error fault →
    ∃ name, called log = succeeded log ++ [(name, values name)] ∧
      called log <+: reading values (batch.filterMap first.nameOf).eraseDups ∧
      (first.site.writer.updateMetric last.site.volume name (values name)).result = .error fault
  /-- The counter is raised by the number of the updates that succeeded, modulo 2⁶⁴. -/
  applied : last.site.bridge.applied =
    first.site.bridge.applied + UInt64.ofNat (succeeded log).length
  /-- The names that were updated hold their values, and all else is as it was. -/
  remains : Left first.site.writer first.site.volume last.site.volume (succeeded log)

/-- What can be said of a batch while it is applied and when it is over. -/
structure Applied (values : String → MetricValue) (shutdown : Bool) (batch : List String)
    (first last : World) (moves : List Move) (log : List Happening) : Prop where
  steps : threadSteps moves + left last.thread ≤ 2 * batch.length + 1
  /-- The thread can always bring it to an end. -/
  ends : Reading values last → ∃ more later final, (∀ move ∈ more, move = .thread) ∧
    Applies values last more later final ∧ ¬ Busy final.thread
  finished : ¬ Busy last.thread → Coalesced values shutdown batch first last log

theorem coalesced_of_underway {layout : Layout} {file : MappedFile}
    (hrunning : Running first.site.writer layout file)
    (hlength : (mapped first.site.writer first.site.volume).length = layout.length)
    (hunderway : Underway values shutdown (applyEach first.site.writer first.site.volume
      (reading values (batch.filterMap first.nameOf).eraseDups)) first last log)
    (hover : ¬ Busy last.thread) : Coalesced values shutdown batch first last log := by
  obtain ⟨stage, hthread, hphase⟩ := hunderway.phase
  obtain ⟨hstage, hvolume, hcalled, hsucceeded⟩ := hphase.of_not_busy (hthread ▸ hover)
  have hsame : (eachSignal values batch first).result = _ ∧ _ =
      mapped first.site.writer (applyEach first.site.writer first.site.volume (reading values
        (firsts [] (batch.filterMap first.nameOf)))).volume :=
    applyEach_firsts hrunning hlength rfl (List.forall_mem_nil _)
  rw [firsts_nil] at hsame
  have hcases := applyEach_cases first.site.writer first.site.volume
    (reading values (batch.filterMap first.nameOf).eraseDups)
  have hdistinct : ((reading values (batch.filterMap first.nameOf).eraseDups).map
      Prod.fst).Nodup := by
    rw [← firsts_nil, reading, List.map_map]
    exact (List.map_id _).symm ▸ nodup_firsts [] _
  have hleft := left_applyEach hrunning hlength hdistinct
  rw [← hvolume, ← hsucceeded] at hleft
  rw [← hvolume, ← hcalled, ← hsucceeded] at hcases
  refine
    { bytes := by rw [hvolume]; exact hsame.2.symm
      stage := by rw [hthread, hstage, hsame.1]
      complete := fun hok => ?_
      stopped := fun fault hfault => ?_
      applied := hunderway.applied
      remains := hleft }
  · rw [hsame.1] at hok
    rcases hcases with ⟨-, hall, hdone⟩ | ⟨fault, _, hfault, -⟩
    · exact ⟨hall, hdone.trans hall.symm⟩
    · rw [hok] at hfault
      cases hfault
  · rw [hsame.1] at hfault
    rcases hcases with ⟨hok, -⟩ | ⟨refused, update, hrefused, hfront, hlast, hfailed⟩
    · rw [hok] at hfault
      cases hfault
    · rw [hrefused] at hfault
      cases hfault
      have hmem : update ∈ reading values (batch.filterMap first.nameOf).eraseDups :=
        hfront.subset (hlast ▸ List.mem_append_right _ (List.mem_singleton_self _))
      obtain ⟨name, -, rfl⟩ := List.mem_map.mp hmem
      refine ⟨name, hlast, hfront, ?_⟩
      rw [Writer.updateMetric, hfailed]

/-- A batch of a started writer that nothing else touches comes to what one update for each signal
would come to, though only the first signal of each name leads to one. -/
theorem applied_of_applies (hbegun : Begun writer volume generation shutdown batch first)
    (happlies : Applies values first moves log last) :
    Applied values shutdown batch first last moves log := by
  obtain ⟨layout, file, hstarted⟩ := started_of_start hbegun.start
  have hfresh := fresh_of_started hbegun.reachable hstarted
  have hrunning : Running first.site.writer layout file := hbegun.sameWriter ▸ hfresh.running
  have hlength : (mapped first.site.writer first.site.volume).length = layout.length := by
    rw [hbegun.length, hbegun.sameWriter, hfresh.length]
  have hleft := left_of_applies happlies
  rw [hbegun.thread] at hleft
  refine ⟨hleft, exists_applies, coalesced_of_underway hrunning hlength ?_⟩
  refine underway_of_applies
    ⟨rfl, rfl, (UInt64.add_zero _).symm, _, hbegun.thread, ?_⟩ happlies
  rw [← firsts_nil]
  exact .applying rfl

theorem eq_ok_of_isOk {result : Outcome Unit} (h : result.isOk) : result = .ok () := by
  cases result with
  | ok => rfl
  | error fault => cases h

/-- The thread of the bridge has taken three signals, two of them of one name. -/
def threeSignals : World :=
  { countAndStateSources with site.bridge := { countAndStateSources.site.bridge with
    started := true
    running := true
    thread := some (.applying false ["count", "count", "state"] []) } }

def fourAndBusy (name : String) : MetricValue :=
  if name = "count" then .i32 4 else .str "busy"

theorem applied_threeSignals :
    Begun countAndState .empty 7 false ["count", "count", "state"] threeSignals ∧
      ∃ moves log last, Applies fourAndBusy threeSignals moves log last ∧ ¬ Busy last.thread ∧
        called log = [("count", .i32 4), ("state", .str "busy")] ∧
        Applied fourAndBusy false ["count", "count", "state"] threeSignals last moves log := by
  have hbegun : Begun countAndState .empty 7 false ["count", "count", "state"] threeSignals :=
    ⟨reachable_countAndState, start_countAndState, started_countAndState.1.symm,
      started_countAndState.2 ▸ rfl, rfl⟩
  have hreading : Reading fourAndBusy threeSignals := by
    intro key hmem
    have hkey : key = "count" ∨ key = "state" := by
      simpa [remaining, threeSignals, World.thread] using hmem
    rcases hkey with rfl | rfl
    · exact ⟨_, rfl, rfl⟩
    · exact ⟨_, rfl, rfl⟩
  have hok : (eachSignal fourAndBusy ["count", "count", "state"] threeSignals).result.isOk := by
    decide +kernel
  obtain ⟨moves, log, last, -, happlies, hover⟩ := exists_applies hreading
  have happlied := applied_of_applies hbegun happlies
  obtain ⟨hcalled, -⟩ := (happlied.finished hover).complete (eq_ok_of_isOk hok)
  exact ⟨hbegun, moves, log, last, happlies, hover, hcalled, happlied⟩

end Batches

end MappedMetrics.Proofs.BatchApplication
