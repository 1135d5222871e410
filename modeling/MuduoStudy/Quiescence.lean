import MuduoStudy.Closing
import MuduoStudy.Work

namespace MuduoStudy.Server
open Transition
set_option autoImplicit true

/-- The loops never spin: in every run they take at most 56 steps by themselves for each event of
the connection, each timeout of `poll`, each new connection and each step of the user's code. -/
theorem work_bound (h : Run Server.step (Server.init config) as s) :
    tally Server.step (fun s a => a.inner s) (Server.init config) as ≤
      56 * tally Server.step (fun s a => !a.inner s) (Server.init config) as := by
  have hall : AllSteps Server.step (fun _ _ => True) (Server.init config) as :=
    .of_mem fun _ _ _ => trivial
  have hbound := h.tally_le (I := Placed) work (fun s a => a.inner s) 56 hall (Placed.init config)
    fun _ _ _ hp _ hs => ⟨hp.step hs, work_step hp hs⟩
  have hzero : (Server.init config).work = 0 := rfl
  omega

theorem work_bound_example :
    tally Server.step (fun s a => a.inner s) (Server.init ioConfig) (connecting ++ forcing 0) ≤
      56 * tally Server.step (fun s a => !a.inner s) (Server.init ioConfig)
        (connecting ++ forcing 0) := by
  have hrun : (exec Server.step (Server.init ioConfig) (connecting ++ forcing 0)).any
      (fun _ => true) = true := by
    decide +kernel
  obtain ⟨s, hs, _⟩ := Run.of_exec_any hrun
  exact work_bound hs

/-- Nothing is left to do on the two loops. -/
def Settled (s : Server) : Prop :=
  ∀ l, s.stack (.loop l) = [] ∧ s.phase l = .poll ∧ (s.queue l).contents = []

instance (s : Server) : Decidable (Settled s) :=
  decidable_of_iff ((s.stack (.loop .base) = [] ∧ s.phase .base = .poll ∧
      (s.queue .base).contents = []) ∧
    (s.stack (.loop .io) = [] ∧ s.phase .io = .poll ∧ (s.queue .io).contents = []))
    ⟨fun h l => match l with
      | .base => h.1
      | .io => h.2, fun h => ⟨h .base, h .io⟩⟩

section
variable {s : Server} {t : Thread} {rest : List Frame}

theorem Settled.worth (h : Settled s) (p : Price) : worth s.stack s.queue p = 0 := by
  have hframes (l : Loop) : framesWorth p (s.stack (.loop l)) = 0 := by
    rw [(h l).1]
    rfl
  have hqueue (l : Loop) : queueWorth p (s.queue l) = 0 := by
    rw [queueWorth, (h l).2.2]
    rfl
  rw [Server.worth, hframes, hframes, hqueue, hqueue]

/-- A closed connection of a server where nothing is left to do has been destroyed. -/
theorem Settled.destroyed (h : Settled s) (hk : Kept s) (hc : 0 < s.closes) :
    s.registered = false ∧ 0 < s.destroyed := by
  have hcustody := hk.living.custody
  have hsound := hk.started.lived.sound
  have hclose := hsound.close
  have hremove := hsound.remove hcustody.alive
  have hdestroy := hcustody.destroy
  have hfinish := hsound.finish
  rw [h.worth] at hclose hremove hdestroy hfinish
  simp only [handoff] at hclose hremove hdestroy hfinish
  have hqueued : 0 < s.destroyQueued := by omega
  refine ⟨?_, by omega⟩
  by_contra hreg
  have hnone : s.destroyQueued = 0 := hsound.registered (Bool.eq_true_of_not_eq_false hreg)
  omega

end

end MuduoStudy.Server
