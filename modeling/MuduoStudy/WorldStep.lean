import MuduoStudy.World

namespace MuduoStudy.World
set_option autoImplicit true

inductive Step (w : World) : Action → World → Prop where
  | go {t : Thread} {i : Nat} {f : Server.Frame} {rest : List Frame} {k : Server.Answer}
      {s : Server} : w.stack t = .conn i f :: rest →
      (w.record i).statement (w.role i t) f k = some s → Step w (.go t k)
        ((w.after t i f s).goto t ((s.stack (w.role i t)).map (.conn i) ++ rest))
  | activeChannel : w.stack (.loop l) = [] → w.phase l = .activeChannels ((i, revents) :: events) →
      Step w (.loop l) ((w.setPhase l (.activeChannels events)).goto (.loop l)
        [.conn i (.handleEvent revents)])
  | handled : w.stack (.loop l) = [] → w.phase l = .activeChannels [] →
      Step w (.loop l) (w.setPhase l .swap)
  | swap : w.stack (.loop l) = [] → w.phase l = .swap →
      Step w (.loop l) ((w.setQueue l (w.queue l).swap).setPhase l .functors)
  | endFunctors : w.stack (.loop l) = [] → w.phase l = .functors → (w.queue l).pop = none →
      Step w (.loop l) (w.setPhase l .poll)
  | callFunctor : w.stack (.loop l) = [] → w.phase l = .functors → (w.queue l).pop = some (f, q) →
      Step w (.loop l) ((w.setQueue l q).goto (.loop l) [f.frame])
  | poll : w.stack (.loop l) = [] → w.phase l = .poll → (events.map Prod.fst).Nodup →
      (∀ e ∈ events, w.reports l e = true) →
      Step w (.poll l events) (w.setPhase l (.activeChannels events))
  | enter : w.stack (.loop l) = [] → (w.phase l).outside = true →
      Step w (.enter l) (w.goto (.loop l) [.user])
  | leave : w.stack (.loop l) = f :: rest → f.isUser = true →
      Step w (.leave l) (w.goto (.loop l) rest)
  | call : w.inUserCode t = true → (w.conns i).exposed = true → Step w (.call t i a) (w.call t i a)
  | post : w.inUserCode t = true → Step w (.post t l) (w.post l .other)
  | newConnection : w.stack (.loop .base) = [] → w.phase .base = .activeChannels events →
      Step w .newConnection w.newConnection

theorem Step.of_loop {w w' : World} (hs : w.stack (.loop l) = []) (h : w.loop l = some w') :
    Step w (.loop l) w' := by
  cases hp : w.phase l with
  | poll => simp [loop, hp] at h
  | activeChannels events =>
    cases events with
    | nil =>
      simp only [loop, hp, Option.some.injEq] at h
      exact h ▸ .handled hs hp
    | cons e events =>
      obtain ⟨i, revents⟩ := e
      simp only [loop, hp, Option.some.injEq] at h
      exact h ▸ .activeChannel hs hp
  | swap =>
    simp only [loop, hp, Option.some.injEq] at h
    exact h ▸ .swap hs hp
  | functors =>
    cases hq : (w.queue l).pop with
    | none =>
      simp only [loop, hp, hq, Option.some.injEq] at h
      exact h ▸ .endFunctors hs hp hq
    | some popped =>
      simp only [loop, hp, hq, Option.some.injEq] at h
      exact h ▸ .callFunctor hs hp hq

theorem Step.of_step {w w' : World} (h : w.step a = some w') : Step w a w' := by
  cases a with
  | go t k =>
    simp only [step, World.go] at h
    split at h
    · cases h
    · cases h
    · rename_i hs
      obtain ⟨s, hstatement, rfl⟩ := Option.map_eq_some_iff.1 h
      exact .go hs hstatement
  | loop l =>
    simp only [step, Option.ite_none_right_eq_some] at h
    exact .of_loop h.1 h.2
  | poll l events =>
    simp only [step, Option.ite_none_right_eq_some, Option.some.injEq, List.all_eq_true] at h
    obtain ⟨⟨hs, hp, hnodup, hreports⟩, rfl⟩ := h
    exact .poll hs hp hnodup hreports
  | enter l =>
    simp only [step, Option.ite_none_right_eq_some, Option.some.injEq] at h
    obtain ⟨⟨hs, hp⟩, rfl⟩ := h
    exact .enter hs hp
  | leave l =>
    simp only [step] at h
    split at h
    · rename_i hs
      simp only [Option.ite_none_right_eq_some, Option.some.injEq] at h
      obtain ⟨hf, rfl⟩ := h
      exact .leave hs hf
    · cases h
  | call t i a =>
    simp only [step, Option.ite_none_right_eq_some, Option.some.injEq] at h
    obtain ⟨⟨hu, he⟩, rfl⟩ := h
    exact .call hu he
  | post t l =>
    simp only [step, Option.ite_none_right_eq_some, Option.some.injEq] at h
    obtain ⟨hu, rfl⟩ := h
    exact .post hu
  | newConnection =>
    simp only [step] at h
    split at h
    · rename_i hp
      simp only [Option.ite_none_right_eq_some, Option.some.injEq] at h
      obtain ⟨hs, rfl⟩ := h
      exact .newConnection hs hp
    · cases h

end MuduoStudy.World
