import MappedMetrics.Bridge

/-!
A schedule of one main thread and the thread of a bridge. What takes no time is done at once; while
the thread does what takes long, the main thread goes on unless it is told to wait.
-/

namespace MappedMetrics.Site

/-- Whether the thread is about to read a long text. -/
def isSlow (site : Site) : Bool :=
  match site.bridge.thread with
  | some (.applying _ (key :: _) _) =>
      match (site.monitor? key).map Monitor.current with
      | some (.ok (.str text)) => 2 ^ 20 < text.utf8ByteSize
      | _ => false
  | _ => false

/-- Whether the thread has a long queue to empty. -/
def isBusy (site : Site) : Bool :=
  match site.bridge.thread with
  | some .receiving | some (.draining _) => 2 ^ 12 < site.bridge.queued
  | _ => false

/-- Lets the thread run beside a step of the main thread. From a long queue it takes only a few
signals in that time. -/
def settleBeside (site : Site) : Site × List Event :=
  if site.isBusy then stepMany (fun _ => false) 4 site [] else site.settleUntil isSlow

end MappedMetrics.Site
