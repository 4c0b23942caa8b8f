import LinkedViews.Desk.Propagation
import LinkedViews.Host.Memory

/-!
Delivery of the reports that are queued in a memory host.
-/

namespace LinkedViews.Desk

/-- Hands one report to the session. One about a malformed product uri changes nothing. -/
def deliver (d : Desk MemoryHost) (r : Report) : Desk MemoryHost :=
  match d.selectionReported r.editor r.selections with
  | .ok (_, d) => d
  | .error _ => d

/-- Delivers queued reports, the first one first, but at most a given number of them; with
the number delivered. -/
def drainUpTo : Nat → Desk MemoryHost → Nat × Desk MemoryHost
  | 0, d => (0, d)
  | n + 1, d =>
    match d.host.reports with
    | [] => (0, d)
    | r :: rest =>
      let (count, d) := drainUpTo n (deliver { d with host := { d.host with reports := rest } } r)
      (count + 1, d)

/-- The most reports that are delivered at once. -/
def burst : Nat := 256

def drain (d : Desk MemoryHost) : Nat × Desk MemoryHost := drainUpTo burst d

end LinkedViews.Desk
