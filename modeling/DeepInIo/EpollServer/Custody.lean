import DeepInIo.EpollServer.Reading
import DeepInIo.EpollServer.Steps
import DeepInIo.Foundation.Custody
import Mathlib.Data.List.Nodup

/-!
# Who holds a client

The servers of `linux/epoll` know a client by its descriptor number only, and the kernel gives a
closed number to the next `accept`.  An open number is at one place: with the main thread that has
accepted it, in one of the pipes, with the event loop that is about to register it, or in one
interest list.  `Custody` says so, and that a loop looks only at clients of its own list; so no step
of a loop, not even the `EPOLL_CTL_DEL` that follows the `close`, touches a client of another loop
or a later client under the same number (`custody_of_reachable`).  When no `EPOLL_CTL_ADD` fails,
every open client is at exactly one of the places (`one_holder`).
-/

namespace DeepInIo.EpollServer

variable {c : Config}

/-- Where a client may be. -/
inductive Place (c : Config)
  /-- accepted by the main thread -/
  | main
  /-- in the pipe of a loop -/
  | pipe (l : Fin c.loops)
  /-- at the `EPOLL_CTL_ADD` of a loop -/
  | add (l : Fin c.loops)
  /-- in the interest list of a loop -/
  | list (l : Fin c.loops)
  deriving DecidableEq

namespace State

variable {s s' : State c} {a : Action c} {l : Fin c.loops} {f : Fd}

/-- A place holds a client. -/
def Holds (s : State c) : Place c → Fd → Prop
  | .main, f => s.main = .write f
  | .pipe l, f => f ∈ s.pipes l
  | .add l, f => (s.loops l).pc = .add f
  | .list l, f => s.reg l f ≠ none

@[simp] theorem holds_main : s.Holds .main f ↔ s.main = .write f := Iff.rfl

@[simp] theorem holds_pipe : s.Holds (.pipe l) f ↔ f ∈ s.pipes l := Iff.rfl

@[simp] theorem holds_add : s.Holds (.add l) f ↔ (s.loops l).pc = .add f := Iff.rfl

@[simp] theorem holds_list : s.Holds (.list l) f ↔ s.reg l f ≠ none := Iff.rfl

/-- Every client is held by at most one place, and every loop works on clients of its own interest
list. -/
structure Custody (s : State c) : Prop where
  exclusive : Exclusive s.Holds
  /-- No number is twice in a pipe. -/
  pipesNodup : ∀ l, (s.pipes l).Nodup
  /-- What is held is open: no closed number is in a pipe or in an interest list. -/
  isOpen : ∀ p f, s.Holds p f → s.socks f ≠ none
  batchNodup : ∀ l, (s.loops l).batch.Nodup
  /-- What a loop is going to read or to close is in its interest list. -/
  inHand : ∀ l f, (s.loops l).InHand f → s.reg l f ≠ none
  /-- A client that is being read or closed has no second event. -/
  once : ∀ l f, (s.loops l).pc = .read f ∨ (s.loops l).pc = .close f → .client f ∉ (s.loops l).batch
  /-- `EPOLL_CTL_DEL` finds no registration, even when the number is in use again. -/
  deleted : ∀ l f, (s.loops l).pc = .del f → s.reg l f = none

namespace Custody

theorem start : (State.start c).Custody where
  exclusive := by
    intro f p q hp
    cases p <;> simp [State.start] at hp
  pipesNodup _ := List.nodup_nil
  isOpen p f hp := by cases p <;> simp [State.start] at hp
  batchNodup _ := List.nodup_nil
  inHand l f hf := by simp [State.start, EventLoop.InHand] at hf
  once l f hf := by simp [State.start] at hf
  deleted l f hf := by simp [State.start] at hf

/-- Clients are let go, and what else has changed is what the clients have sent and which edges are
armed. -/
theorem letGo (h : s.Custody) (hmain : ∀ f, s'.main = .write f → s.main = .write f)
    (hpipes : ∀ l, (s'.pipes l).Sublist (s.pipes l)) (hloops : s'.loops = s.loops)
    (hsocks : ∀ f, s'.socks f = none ↔ s.socks f = none)
    (hreg : ∀ l f, s'.reg l f = none ↔ s.reg l f = none) :
    s'.Custody := by
  have hholds : ∀ p f, s'.Holds p f → s.Holds p f := by
    intro p f hp
    cases p with
    | main => exact hmain f hp
    | pipe l => exact (hpipes l).subset hp
    | add l => simpa [hloops] using hp
    | list l => simpa [hreg] using hp
  refine ⟨h.exclusive.mono hholds, fun l => (h.pipesNodup l).sublist (hpipes l), ?_, ?_, ?_, ?_, ?_⟩
  · intro p f hp
    rw [Ne, hsocks]
    exact h.isOpen p f (hholds p f hp)
  · rw [hloops]
    exact h.batchNodup
  · intro l f hf
    rw [Ne, hreg]
    rw [hloops] at hf
    exact h.inHand l f hf
  · rw [hloops]
    exact h.once
  · intro l f hf
    rw [hreg]
    rw [hloops] at hf
    exact h.deleted l f hf

/-- Only what the clients have sent and which edges are armed has changed. -/
theorem congr (h : s.Custody) (hmain : s'.main = s.main) (hpipes : s'.pipes = s.pipes)
    (hloops : s'.loops = s.loops) (hsocks : ∀ f, s'.socks f = none ↔ s.socks f = none)
    (hreg : ∀ l f, s'.reg l f = none ↔ s.reg l f = none) :
    s'.Custody :=
  h.letGo (fun _ hf => hmain ▸ hf) (fun _ => hpipes ▸ List.Sublist.refl _) hloops hsocks hreg

/-- An edge is armed or taken. -/
theorem setEdge {b b' : Bool} (h : s.Custody) (hreg : s.reg l f = some b) :
    (s.setReg l f (some b')).Custody := by
  refine h.congr rfl rfl rfl (fun _ => Iff.rfl) fun l' f' => ?_
  by_cases hl : l' = l
  · subst hl
    by_cases hf : f' = f
    · subst hf
      simp [hreg]
    · simp [hf]
  · simp [hl]

/-- A client stays open. -/
theorem setSock {v v' : Sock} (h : s.Custody) (hv : s.socks f = some v) :
    (s.setSock f (some v')).Custody := by
  refine h.congr rfl rfl rfl (fun f' => ?_) fun _ _ => Iff.rfl
  by_cases hf : f' = f
  · subst hf
    simp [hv]
  · simp [hf]

/-- An edge is armed wherever the client is registered. -/
theorem arm (h : s.Custody) : (s.arm f).Custody := by
  refine h.congr rfl rfl rfl (fun _ => Iff.rfl) fun l' f' => ?_
  by_cases hf : f' = f
  · subst hf
    simp
  · simp [hf]

/-- A loop proceeds without taking a client into custody. -/
theorem setLoop {loop : EventLoop} (h : s.Custody) (hadd : ∀ f, loop.pc ≠ .add f)
    (hbatch : loop.batch.Nodup) (hhand : ∀ f, loop.InHand f → s.reg l f ≠ none)
    (honce : ∀ f, loop.pc = .read f ∨ loop.pc = .close f → .client f ∉ loop.batch)
    (hdel : ∀ f, loop.pc = .del f → s.reg l f = none) : (s.setLoop l loop).Custody := by
  have hholds : ∀ p f, (s.setLoop l loop).Holds p f → s.Holds p f := by
    intro p f hp
    cases p with
    | add l' =>
      rw [holds_add, setLoop_loops] at hp
      by_cases hl : l' = l
      · subst hl
        rw [Function.update_self] at hp
        exact absurd hp (hadd f)
      · rwa [Function.update_of_ne hl] at hp
    | main | pipe | list => exact hp
  refine ⟨h.exclusive.mono hholds, h.pipesNodup, fun p f hp => h.isOpen p f (hholds p f hp), ?_,
    ?_, ?_, ?_⟩
  all_goals intro l'
  all_goals rw [setLoop_loops]
  all_goals by_cases hl : l' = l
  all_goals first | subst hl; rw [Function.update_self] | rw [Function.update_of_ne hl]
  · exact hbatch
  · exact h.batchNodup l'
  · exact hhand
  · exact h.inHand l'
  · exact honce
  · exact h.once l'
  · exact hdel
  · exact h.deleted l'

/-- A loop proceeds to a program point that concerns no client. -/
theorem setPc {pc : LoopPc} (h : s.Custody)
    (hpc : ∀ f, pc ≠ .add f ∧ pc ≠ .read f ∧ pc ≠ .close f ∧ pc ≠ .del f) :
    (s.setPc l pc).Custody := by
  refine h.setLoop (fun f => (hpc f).1) (h.batchNodup l) ?_ ?_ ?_
  · intro f hf
    rcases hf with hbatch | hread | hclose
    · exact h.inHand l f (.inl hbatch)
    · exact absurd hread (hpc f).2.1
    · exact absurd hclose (hpc f).2.2.1
  · rintro f (hread | hclose)
    · exact absurd hread (hpc f).2.1
    · exact absurd hclose (hpc f).2.2.1
  · intro f hdel
    exact absurd hdel (hpc f).2.2.2

/-- The next event of a loop is taken. -/
theorem nextEvent {e : Source} {rest : List Source} {pc : LoopPc} (h : s.Custody)
    (hb : (s.loops l).batch = e :: rest) (hpc : ∀ f, pc ≠ .add f ∧ pc ≠ .close f ∧ pc ≠ .del f)
    (hread : ∀ f, pc = .read f → e = .client f) :
    (s.setLoop l { pc := pc, batch := rest }).Custody := by
  have hnodup := h.batchNodup l
  rw [hb, List.nodup_cons] at hnodup
  have hmem : ∀ f, .client f ∈ e :: rest → s.reg l f ≠ none := by
    intro f hf
    exact h.inHand l f (.inl (hb ▸ hf))
  refine h.setLoop (fun f => (hpc f).1) hnodup.2 ?_ ?_ ?_
  · rintro f (hbatch | hr | hclose)
    · exact hmem f (List.mem_cons_of_mem _ hbatch)
    · exact hmem f (hread f hr ▸ List.mem_cons_self)
    · exact absurd hclose (hpc f).2.1
  · rintro f (hr | hclose)
    · rw [← hread f hr]
      exact hnodup.1
    · exact absurd hclose (hpc f).2.1
  · intro f hdel
    exact absurd hdel (hpc f).2.2

/-- A client that has nothing to read is going to be closed. -/
theorem toClose (h : s.Custody) (hpc : (s.loops l).pc = .read f) :
    (s.setPc l (.close f)).Custody := by
  refine h.setLoop (by rintro f' ⟨⟩) (h.batchNodup l) ?_ ?_ (by rintro f' ⟨⟩)
  · rintro f' (hbatch | ⟨⟨⟩⟩ | ⟨⟨⟩⟩)
    · exact h.inHand l f' (.inl hbatch)
    · exact h.inHand l f (.inr (.inl hpc))
  · rintro f' (⟨⟨⟩⟩ | ⟨⟨⟩⟩)
    exact h.once l f (.inl hpc)

/-! ### Clients that change hands -/

/-- A free number is held nowhere. -/
theorem not_held (h : s.Custody) (hfree : s.socks f = none) (p : Place c) : ¬s.Holds p f := by
  intro hp
  exact h.isOpen p f hp hfree

/-- A connection is accepted. -/
theorem openSock {v : Sock} (h : s.Custody) : (s.setSock f (some v)).Custody := by
  refine ⟨h.exclusive, h.pipesNodup, fun p f' hp => ?_, h.batchNodup, h.inHand, h.once, h.deleted⟩
  rw [setSock_socks]
  by_cases hf : f' = f
  · subst hf
    simp
  · rw [Function.update_of_ne hf]
    exact h.isOpen p f' hp

/-- The main thread takes an open client that is held nowhere. -/
theorem toMain (h : s.Custody) (hopen : s.socks f ≠ none) (hnot : ∀ p, ¬s.Holds p f) :
    (s.setMain (.write f)).Custody := by
  have hother : ∀ q f', q ≠ .main → (s.setMain (.write f)).Holds q f' → s.Holds q f' := by
    intro q f' hq hheld
    cases q with
    | main => exact absurd rfl hq
    | pipe | add | list => exact hheld
  refine ⟨h.exclusive.move (p := .main) (x := f) ?_ ?_, h.pipesNodup, ?_, h.batchNodup, h.inHand,
    h.once, h.deleted⟩
  · intro q f' hf hheld
    apply hother q f' _ hheld
    rintro rfl
    exact hf (MainPc.write.inj hheld).symm
  · intro q hheld
    by_contra hq
    exact hnot q (hother q f hq hheld)
  · intro q f' hheld
    by_cases hq : q = .main
    · subst hq
      rw [← MainPc.write.inj hheld]
      exact hopen
    · exact h.isOpen q f' (hother q f' hq hheld)

/-- An open client that is held nowhere is written to a pipe. -/
theorem toPipe (h : s.Custody) (hopen : s.socks f ≠ none) (hnot : ∀ p, ¬s.Holds p f) :
    (s.setPipe l (s.pipes l ++ [f])).Custody := by
  have hcases : ∀ q f', (s.setPipe l (s.pipes l ++ [f])).Holds q f' → s.Holds q f' ∨
      (q = .pipe l ∧ f' = f) := by
    intro q f' hheld
    cases q with
    | pipe l' =>
      rw [holds_pipe, setPipe_pipes] at hheld
      by_cases hl : l' = l
      · subst hl
        rw [Function.update_self, List.mem_append, List.mem_singleton] at hheld
        exact hheld.imp_right fun hf => ⟨rfl, hf⟩
      · rw [Function.update_of_ne hl] at hheld
        exact .inl hheld
    | main | add | list => exact .inl hheld
  refine ⟨h.exclusive.move (p := .pipe l) (x := f) ?_ ?_, ?_, ?_, h.batchNodup, h.inHand, h.once,
    h.deleted⟩
  · intro q f' hf hheld
    exact (hcases q f' hheld).resolve_right fun hnew => hf hnew.2
  · intro q hheld
    exact ((hcases q f hheld).resolve_left (hnot q)).1
  · intro l'
    rw [setPipe_pipes]
    by_cases hl : l' = l
    · subst hl
      rw [Function.update_self]
      exact List.Nodup.append (h.pipesNodup l') (List.nodup_singleton f)
        (List.disjoint_singleton.mpr (hnot (.pipe l')))
    · rw [Function.update_of_ne hl]
      exact h.pipesNodup l'
  · intro q f' hheld
    rcases hcases q f' hheld with hold | ⟨-, rfl⟩
    · exact h.isOpen q f' hold
    · exact hopen

/-- A loop takes an open client that is held nowhere. -/
theorem toAdd (h : s.Custody) (hopen : s.socks f ≠ none) (hnot : ∀ p, ¬s.Holds p f) :
    (s.setPc l (.add f)).Custody := by
  have hcases : ∀ q f', (s.setPc l (.add f)).Holds q f' → s.Holds q f' ∨ (q = .add l ∧ f' = f) := by
    intro q f' hheld
    cases q with
    | add l' =>
      rw [holds_add, setPc_loops] at hheld
      by_cases hl : l' = l
      · subst hl
        rw [Function.update_self] at hheld
        exact .inr ⟨rfl, (LoopPc.add.inj hheld).symm⟩
      · rw [Function.update_of_ne hl] at hheld
        exact .inl hheld
    | main | pipe | list => exact .inl hheld
  refine ⟨h.exclusive.move (p := .add l) (x := f) ?_ ?_, h.pipesNodup, ?_, ?_, ?_, ?_, ?_⟩
  · intro q f' hf hheld
    exact (hcases q f' hheld).resolve_right fun hnew => hf hnew.2
  · intro q hheld
    exact ((hcases q f hheld).resolve_left (hnot q)).1
  · intro q f' hheld
    rcases hcases q f' hheld with hold | ⟨-, rfl⟩
    · exact h.isOpen q f' hold
    · exact hopen
  all_goals intro l'
  all_goals rw [setPc_loops]
  all_goals by_cases hl : l' = l
  all_goals first | subst hl; rw [Function.update_self] | rw [Function.update_of_ne hl]
  · exact h.batchNodup l'
  · exact h.batchNodup l'
  · rintro f' (hbatch | ⟨⟨⟩⟩ | ⟨⟨⟩⟩)
    exact h.inHand l' f' (.inl hbatch)
  · exact h.inHand l'
  · rintro f' (⟨⟨⟩⟩ | ⟨⟨⟩⟩)
  · exact h.once l'
  · rintro f' ⟨⟩
  · exact h.deleted l'

/-- An open client that is held nowhere is registered; no loop has just closed it. -/
theorem toList {b : Bool} (h : s.Custody) (hopen : s.socks f ≠ none) (hnot : ∀ p, ¬s.Holds p f)
    (hdel : (s.loops l).pc ≠ .del f) : (s.setReg l f (some b)).Custody := by
  have hreg : ∀ l' f', s.reg l' f' ≠ none → (s.setReg l f (some b)).reg l' f' ≠ none := by
    intro l' f' hold
    by_cases hl : l' = l
    · subst hl
      by_cases hf : f' = f
      · subst hf
        simp
      · simpa [hf] using hold
    · simpa [hl] using hold
  have hcases : ∀ q f', (s.setReg l f (some b)).Holds q f' → s.Holds q f' ∨
      (q = .list l ∧ f' = f) := by
    intro q f' hheld
    cases q with
    | list l' =>
      by_cases hnew : l' = l ∧ f' = f
      · exact .inr ⟨hnew.1 ▸ rfl, hnew.2⟩
      · left
        rw [not_and_or] at hnew
        rcases hnew with hl | hf
        · simpa [hl] using hheld
        · by_cases hl : l' = l
          · subst hl
            simpa [hf] using hheld
          · simpa [hl] using hheld
    | main | pipe | add => exact .inl hheld
  refine ⟨h.exclusive.move (p := .list l) (x := f) ?_ ?_, h.pipesNodup, ?_, h.batchNodup,
    fun l' f' hf => hreg l' f' (h.inHand l' f' hf), h.once, ?_⟩
  · intro q f' hf hheld
    exact (hcases q f' hheld).resolve_right fun hnew => hf hnew.2
  · intro q hheld
    exact ((hcases q f hheld).resolve_left (hnot q)).1
  · intro q f' hheld
    rcases hcases q f' hheld with hold | ⟨-, rfl⟩
    · exact h.isOpen q f' hold
    · exact hopen
  · intro l' f' hf
    by_contra hnew
    rcases hcases (.list l') f' hnew with hold | ⟨hl, rfl⟩
    · exact hold (h.deleted l' f' hf)
    · cases hl
      exact hdel hf

/-- A client is closed that only interest lists hold and that no loop has in hand. -/
theorem closeSock (h : s.Custody) (hlist : ∀ p, s.Holds p f → ∃ l, p = .list l)
    (hhand : ∀ l, ¬(s.loops l).InHand f) : (s.closeSock f).Custody := by
  have hne : ∀ q f', (s.closeSock f).Holds q f' → f' ≠ f := by
    rintro q f' hheld rfl
    have hold : (∀ l, q ≠ .list l) → s.Holds q f' := by
      intro hq
      cases q with
      | list l => exact absurd rfl (hq l)
      | main | pipe | add => exact hheld
    by_cases hq : ∃ l, q = .list l
    · obtain ⟨l, rfl⟩ := hq
      simp at hheld
    · exact hq (hlist q (hold (not_exists.mp hq)))
  have hreg : ∀ l f', f' ≠ f → (s.closeSock f).reg l f' = s.reg l f' := by
    intro l f' hf
    simp [hf]
  have hholds : ∀ q f', (s.closeSock f).Holds q f' → s.Holds q f' := by
    intro q f' hheld
    cases q with
    | list l =>
      have hf := hne (.list l) f' hheld
      rwa [holds_list, hreg l f' hf] at hheld
    | main | pipe | add => exact hheld
  refine ⟨h.exclusive.mono hholds, h.pipesNodup, ?_, h.batchNodup, ?_, h.once, ?_⟩
  · intro q f' hheld
    rw [closeSock_socks, Function.update_of_ne (hne q f' hheld)]
    exact h.isOpen q f' (hholds q f' hheld)
  · intro l f' hf
    rw [hreg l f' (by rintro rfl; exact hhand l hf)]
    exact h.inHand l f' hf
  · intro l f' hf
    by_cases hff : f' = f
    · subst hff
      simp
    · rw [hreg l f' hff]
      exact h.deleted l f' hf

/-- `close` of the client that a loop has in hand. -/
theorem closed (h : s.Custody) (hpc : (s.loops l).pc = .close f) :
    ((s.closeSock f).setPc l (.del f)).Custody := by
  have hheld : s.Holds (.list l) f := h.inHand l f (.inr (.inr hpc))
  have hleft : (s.setPc l .next).Custody := h.setPc (by simp)
  have hgone : ((s.setPc l .next).closeSock f).Custody := by
    refine hleft.closeSock (fun p hp => ⟨l, hleft.exclusive f p (.list l) hp hheld⟩)
      fun l' hhand => ?_
    by_cases hl : l' = l
    · subst hl
      rw [setPc_loops, Function.update_self] at hhand
      rcases hhand with hbatch | ⟨⟨⟩⟩ | ⟨⟨⟩⟩
      exact h.once l' f (.inr hpc) hbatch
    · cases hleft.exclusive f (.list l') (.list l) (hleft.inHand l' f hhand) hheld
      exact hl rfl
  have heq : (s.closeSock f).setPc l (.del f) =
      ((s.setPc l .next).closeSock f).setLoop l { pc := .del f, batch := (s.loops l).batch } := by
    simp [State.setPc, State.setLoop, State.closeSock]
  have hbatch : ∀ f', .client f' ∈ (s.loops l).batch →
      ((s.setPc l .next).closeSock f).reg l f' ≠ none := by
    intro f' hmem
    apply hgone.inHand l f' (.inl _)
    simpa using hmem
  rw [heq]
  refine hgone.setLoop (by rintro f' ⟨⟩) (h.batchNodup l) ?_ (by rintro f' (⟨⟨⟩⟩ | ⟨⟨⟩⟩)) ?_
  · rintro f' (hmem | ⟨⟨⟩⟩ | ⟨⟨⟩⟩)
    exact hbatch f' hmem
  · rintro f' ⟨⟩
    simp

/-! ### Every step -/

/-- A step of an event loop. -/
theorem loopStep {r : Result} (h : s.Custody) (hs : LoopStep s l r s') : s'.Custody := by
  cases hs with
  | collect hpc hnew he =>
    refine h.setLoop (by simp [hpc]) ?_ ?_ (by simp [hpc]) (by simp [hpc])
    · exact List.Nodup.append (h.batchNodup l) (List.nodup_singleton _)
        (List.disjoint_singleton.mpr hnew)
    · rintro f (hbatch | hpc')
      · rw [List.mem_append, List.mem_singleton] at hbatch
        exact h.inHand l f (.inl (hbatch.resolve_right fun hf => he f hf.symm))
      · exact h.inHand l f (.inr hpc')
  | collectClient hpc hnew hv hreg hread =>
    have hedge : (s.setReg l _ (some false)).Custody := h.setEdge hreg
    refine hedge.setLoop (by simp [hpc]) ?_ ?_ (by simp [hpc]) (by simp [hpc])
    · exact List.Nodup.append (h.batchNodup l) (List.nodup_singleton _)
        (List.disjoint_singleton.mpr hnew)
    · rintro f' (hbatch | hpc')
      · rw [List.mem_append, List.mem_singleton] at hbatch
        rcases hbatch with hold | hf
        · exact hedge.inHand l f' (.inl hold)
        · cases hf
          simp
      · exact hedge.inHand l f' (.inr hpc')
  | drop hpc hv hreg => exact h.setEdge hreg
  | wake hpc hb => exact h.setPc (by simp)
  | nextWait hpc hb => exact h.setPc (by simp)
  | nextListen hpc hb => exact h.nextEvent hb (by simp) (by simp)
  | nextPipe hpc hb => exact h.nextEvent hb (by simp) (by simp)
  | nextClient hpc hb =>
    apply h.nextEvent hb (by simp)
    rintro f' ⟨⟩
    rfl
  | accepted hpc hfree => exact h.openSock.toAdd (by simp) (h.not_held hfree)
  | acceptFailed hpc => exact h.setPc (by simp)
  | @received _ f rest hpc hp =>
    -- the number leaves the pipe and is then held nowhere
    have hmem : s.Holds (.pipe l) f := by simp [hp]
    have hnodup := h.pipesNodup l
    rw [hp, List.nodup_cons] at hnodup
    have hgone : (s.setPipe l rest).Custody := by
      refine h.letGo (fun _ hf => hf) (fun l' => ?_) rfl (fun _ => Iff.rfl) fun _ _ => Iff.rfl
      rw [setPipe_pipes]
      by_cases hl : l' = l
      · subst hl
        rw [Function.update_self, hp]
        exact List.sublist_cons_self f rest
      · rw [Function.update_of_ne hl]
    refine hgone.toAdd (h.isOpen _ f hmem) fun q hheld => ?_
    by_cases hq : q = .pipe l
    · subst hq
      rw [holds_pipe, setPipe_pipes, Function.update_self] at hheld
      exact hnodup.1 hheld
    · apply h.exclusive.not_held hmem hq
      cases q with
      | pipe l' =>
        have hl : l' ≠ l := fun hl => hq (hl ▸ rfl)
        rwa [holds_pipe, setPipe_pipes, Function.update_of_ne hl] at hheld
      | main | add | list => exact hheld
  | @added f v hpc hv hreg =>
    -- the loop lets the client go and puts it into its list
    have hmem : s.Holds (.add l) f := hpc
    have hgone : (s.setPc l .next).Custody := h.setPc (by simp)
    refine hgone.toList (l := l) (by simp [hv]) (fun q hheld => ?_) (by simp)
    by_cases hq : q = .add l
    · subst hq
      simp at hheld
    · apply h.exclusive.not_held hmem hq
      cases q with
      | add l' =>
        have hl : l' ≠ l := fun hl => hq (hl ▸ rfl)
        rwa [holds_add, setPc_loops, Function.update_of_ne hl] at hheld
      | main | pipe | list => exact hheld
  | addRefused hpc hbad => exact h.setPc (by simp)
  | addFailed hpc => exact h.setPc (by simp)
  | @took f v hpc hv hne =>
    have hsock : (s.setSock f (some { v with unread := v.unread.drop bufferSize })).Custody :=
      h.setSock hv
    have hnext :
        ((s.setSock f (some { v with unread := v.unread.drop bufferSize })).setPc l
          .next).Custody :=
      hsock.setPc (by simp)
    exact hnext.congr rfl rfl rfl (fun _ => Iff.rfl) fun _ _ => Iff.rfl
  | nothing hpc hv => exact h.toClose hpc
  | readFailed hpc => exact h.toClose hpc
  | closed hpc => exact h.closed hpc
  | @deleted _ f hpc =>
    -- there is no registration to remove
    have hsame : s.setReg l f none = s := by
      rw [← h.deleted l f hpc]
      simp [setReg]
    rw [hsame]
    exact h.setPc (by simp)

/-- A step of the main thread. -/
theorem mainStep {r : Result} (h : s.Custody) (hs : MainStep s r s') : s'.Custody := by
  cases hs with
  | accepted hpc hfree => exact h.openSock.toMain (by simp) (h.not_held hfree)
  | failed hpc => exact h
  | @sent _ f hpc hlt =>
    -- the main thread lets the client go and writes it to the pipe
    have hmem : s.Holds .main f := hpc
    have hgone : (s.setMain .accept).Custody := by
      refine h.letGo ?_ (fun _ => List.Sublist.refl _) rfl (fun _ => Iff.rfl) fun _ _ => Iff.rfl
      rintro f' ⟨⟩
    have hnot : ∀ q, ¬(s.setMain .accept).Holds q f := by
      intro q hheld
      by_cases hq : q = .main
      · subst hq
        cases hheld
      · apply h.exclusive.not_held hmem hq
        cases q with
        | main => exact absurd rfl hq
        | pipe | add | list => exact hheld
    have hsent :
        ((s.setMain .accept).setPipe ⟨s.currentWorker, hlt⟩
          (s.pipes ⟨s.currentWorker, hlt⟩ ++ [f])).Custody :=
      hgone.toPipe (h.isOpen .main f hmem) hnot
    exact hsent.congr rfl rfl rfl (fun _ => Iff.rfl) fun _ _ => Iff.rfl

/-- A step of the clients. -/
theorem envStep {e : Environment} (h : s.Custody) (hs : EnvStep s e s') : s'.Custody := by
  cases hs with
  | data hv hne hopen => exact (h.setSock hv).arm
  | signalled hv => exact (h.setSock hv).arm
  | silent hv => exact h.setSock hv

/-- Every step keeps custody. -/
theorem step (h : s.Custody) (hs : (server c).step s a = some s') : s'.Custody := by
  cases step_spec hs with
  | loop hl => exact h.loopStep hl
  | main _ hm => exact h.mainStep hm
  | env he => exact h.envStep he

/-- Custody in every reachable state. -/
theorem of_reachable {ok : State c → Action c → Prop} (hr : (server c).ReachableUnder ok s) :
    s.Custody := by
  induction hr with
  | init h =>
    rw [h]
    exact start
  | step _ _ hs ih => exact ih.step hs

end Custody

end State

open State

/-- In every reachable state every descriptor number is held at most once, only open numbers are
held, every loop has only events of clients of its own interest list, and an `EPOLL_CTL_DEL` after a
`close` finds nothing to remove. -/
theorem custody_of_reachable {s : State c} (hr : (server c).Reachable s) : s.Custody :=
  Custody.of_reachable hr

namespace Action

/-- The main thread accepts the number `f`, and the loop `l`, whose turn it is, registers it. -/
def connect (l : Fin c.loops) (f : Fd) : List (Action c) :=
  [.main (.accepted f), .main .ok, .loop l (.event .pipe), .loop l .ok, .loop l .ok, .loop l .ok,
    .loop l .ok, .loop l .ok]

/-- The peer of `f` shuts down, and the loop `l` closes the number; its `EPOLL_CTL_DEL` comes
next. -/
def disconnect (l : Fin c.loops) (f : Fd) : List (Action c) :=
  [.env (.peerClose f true), .loop l (.event (.client f)), .loop l .ok, .loop l .ok, .loop l .ok,
    .loop l .ok]

end Action

/-- `&workers[i]` -/
def worker (i : Fin 4) : Fin epollMultithreadServer.loops :=
  i

/-- A closed number is accepted again and registered by another loop before the first one has come
to its `EPOLL_CTL_DEL`. -/
theorem custody_of_reused :
    ∃ s : State epollMultithreadServer, s.Custody ∧ (s.loops (worker 0)).pc = .del 5 ∧
      s.reg (worker 1) 5 = some false := by
  obtain ⟨s, hr, hp⟩ := TransitionSystem.exists_of_exec (server epollMultithreadServer)
    (Action.connect (worker 0) 5 ++ Action.disconnect (worker 0) 5 ++ Action.connect (worker 1) 5)
    (fun s => (s.loops (worker 0)).pc = .del 5 ∧ s.reg (worker 1) 5 = some false) rfl
      (by decide +kernel)
  exact ⟨s, custody_of_reachable hr, of_decide_eq_true hp⟩

/-! ### No client is lost -/

/-- The program point is an `EPOLL_CTL_ADD`. -/
def LoopPc.isAdd : LoopPc → Bool
  | .add _ => true
  | _ => false

/-- `EPOLL_CTL_ADD` does not fail. -/
def AddSucceeds (s : State c) (a : Action c) : Prop :=
  ∀ l, a = .loop l .err → (s.loops l).pc.isAdd = false

instance (s : State c) (a : Action c) : Decidable (AddSucceeds s a) :=
  inferInstanceAs (Decidable (∀ l, a = .loop l .err → (s.loops l).pc.isAdd = false))

namespace State

variable {s s' : State c} {a : Action c} {l : Fin c.loops} {p : Place c} {f : Fd}

/-- Every open client is held. -/
def Kept (s : State c) : Prop :=
  ∀ f, s.socks f ≠ none → ∃ p, s.Holds p f

/-- A loop that is not at an `EPOLL_CTL_ADD` lets no client go when it proceeds. -/
theorem holds_setLoop {loop : EventLoop} (hpc : (s.loops l).pc.isAdd = false) (h : s.Holds p f) :
    (s.setLoop l loop).Holds p f := by
  cases p with
  | add l' =>
    have hl : l' ≠ l := by
      rintro rfl
      rw [holds_add] at h
      rw [h] at hpc
      cases hpc
    rwa [holds_add, setLoop_loops, Function.update_of_ne hl]
  | main | pipe | list => exact h

/-- Clients stay where they are, and no other is opened. -/
theorem Kept.mono (h : s.Kept) (hsocks : ∀ f, s'.socks f ≠ none → s.socks f ≠ none)
    (hholds : ∀ p f, s.Holds p f → s'.Holds p f) : s'.Kept := by
  intro f hf
  obtain ⟨p, hp⟩ := h f (hsocks f hf)
  exact ⟨p, hholds p f hp⟩

/-- A loop proceeds from a program point where it holds no client. -/
theorem Kept.setLoop {loop : EventLoop} (h : s.Kept) (hpc : (s.loops l).pc.isAdd = false) :
    (s.setLoop l loop).Kept :=
  h.mono (fun _ hf => hf) fun _ _ hp => holds_setLoop hpc hp

/-- The client `f` is now at the place `p`. -/
theorem Kept.move (h : s.Kept) (hsocks : ∀ f', f' ≠ f → s'.socks f' ≠ none → s.socks f' ≠ none)
    (hp : s'.Holds p f) (hholds : ∀ q f', f' ≠ f → s.Holds q f' → s'.Holds q f') : s'.Kept := by
  intro f' hf'
  by_cases hf : f' = f
  · subst hf
    exact ⟨p, hp⟩
  · obtain ⟨q, hq⟩ := h f' (hsocks f' hf hf')
    exact ⟨q, hholds q f' hf hq⟩

/-- A client stays open, and the interest lists have the same clients. -/
theorem Kept.setEdge {b b' : Bool} (h : s.Kept) (hreg : s.reg l f = some b) :
    (s.setReg l f (some b')).Kept := by
  refine h.mono (fun _ hf => hf) fun p f' hp => ?_
  cases p with
  | list l' =>
    by_cases hl : l' = l
    · subst hl
      by_cases hf : f' = f
      · subst hf
        simp
      · simpa [hf] using hp
    · simpa [hl] using hp
  | main | pipe | add => exact hp

/-- A step of an event loop. -/
theorem Kept.loopStep {r : Result} (h : s.Kept) (hi : s.Custody) (hok : AddSucceeds s (.loop l r))
    (hs : LoopStep s l r s') : s'.Kept := by
  cases hs with
  | collect hpc hnew he => exact h.setLoop (by simp [hpc, LoopPc.isAdd])
  | collectClient hpc hnew hv hreg hread =>
    exact (h.setEdge hreg).setLoop (by simp [hpc, LoopPc.isAdd])
  | drop hpc hv hreg => exact h.setEdge hreg
  | wake hpc hb => exact h.setLoop (by simp [hpc, LoopPc.isAdd])
  | nextWait hpc hb => exact h.setLoop (by simp [hpc, LoopPc.isAdd])
  | nextListen hpc hb => exact h.setLoop (by simp [hpc, LoopPc.isAdd])
  | nextPipe hpc hb => exact h.setLoop (by simp [hpc, LoopPc.isAdd])
  | nextClient hpc hb => exact h.setLoop (by simp [hpc, LoopPc.isAdd])
  | @accepted f hpc hfree =>
    refine h.move (f := f) (p := .add l) ?_ (by simp) fun q f' hf hq => ?_
    · intro f' hf hopen
      simpa [hf] using hopen
    · exact holds_setLoop (by simp [hpc, LoopPc.isAdd]) hq
  | acceptFailed hpc => exact h.setLoop (by simp [hpc, LoopPc.isAdd])
  | @received _ f rest hpc hp =>
    refine h.move (f := f) (p := .add l) (fun _ _ hf => hf) (by simp) fun q f' hf hq => ?_
    apply holds_setLoop (by simp [hpc, LoopPc.isAdd])
    cases q with
    | pipe l' =>
      rw [holds_pipe, setPipe_pipes]
      by_cases hl : l' = l
      · subst hl
        rw [holds_pipe, hp, List.mem_cons] at hq
        rw [Function.update_self]
        exact hq.resolve_left hf
      · rwa [Function.update_of_ne hl]
    | main | add | list => exact hq
  | @added f v hpc hv hreg =>
    refine h.move (f := f) (p := .list l) (fun _ _ hf => hf) (by simp) fun q f' hf hq => ?_
    cases q with
    | add l' =>
      have hl : l' ≠ l := by
        rintro rfl
        rw [holds_add, hpc] at hq
        exact hf (LoopPc.add.inj hq).symm
      rwa [holds_add, setPc_loops, Function.update_of_ne hl]
    | list l' =>
      by_cases hl : l' = l
      · subst hl
        simpa [hf] using hq
      · simpa [hl] using hq
    | main | pipe => exact hq
  | @addRefused f hpc hbad =>
    -- the number is open, and no list holds it
    have hmem : s.Holds (.add l) f := hpc
    rcases hbad with hclosed | hreg
    · exact absurd hclosed (hi.isOpen _ f hmem)
    · have hnot : ¬s.Holds (.list l) f := hi.exclusive.not_held hmem (by simp)
      exact absurd hreg hnot
  | addFailed hpc =>
    have hno := hok l rfl
    rw [hpc] at hno
    cases hno
  | @took f v hpc hv hne =>
    refine h.mono (fun f' hf' => ?_) fun q f' hq => holds_setLoop (by simp [hpc, LoopPc.isAdd]) hq
    by_cases hf : f' = f
    · subst hf
      simp [hv]
    · simpa [hf] using hf'
  | nothing hpc hv => exact h.setLoop (by simp [hpc, LoopPc.isAdd])
  | readFailed hpc => exact h.setLoop (by simp [hpc, LoopPc.isAdd])
  | @closed _ f hpc =>
    intro f' hf'
    have hf : f' ≠ f := by
      rintro rfl
      simp at hf'
    rw [setPc_socks, closeSock_socks, Function.update_of_ne hf] at hf'
    obtain ⟨q, hq⟩ := h f' hf'
    refine ⟨q, holds_setLoop (by simp [hpc, LoopPc.isAdd]) ?_⟩
    cases q with
    | list l' => simpa [hf] using hq
    | main | pipe | add => exact hq
  | @deleted _ f hpc =>
    refine h.mono (fun _ hf' => hf') fun q f' hq => holds_setLoop (by simp [hpc, LoopPc.isAdd]) ?_
    have hsame : s.setReg l f none = s := by
      rw [← hi.deleted l f hpc]
      simp [setReg]
    rwa [hsame]

/-- A step of the main thread. -/
theorem Kept.mainStep {r : Result} (h : s.Kept) (hs : MainStep s r s') : s'.Kept := by
  cases hs with
  | @accepted f hpc hfree =>
    refine h.move (f := f) (p := .main) ?_ (by simp) fun q f' hf hq => ?_
    · intro f' hf hopen
      simpa [hf] using hopen
    · cases q with
      | main =>
        rw [holds_main, hpc] at hq
        cases hq
      | pipe | add | list => exact hq
  | failed hpc => exact h
  | @sent _ f hpc hlt =>
    refine h.move (f := f) (p := .pipe ⟨s.currentWorker, hlt⟩) (fun _ _ hf => hf) (by simp)
      fun q f' hf hq => ?_
    cases q with
    | main =>
      rw [holds_main, hpc] at hq
      exact absurd (MainPc.write.inj hq).symm hf
    | pipe l' =>
      rw [holds_pipe, nextWorker_pipes, setPipe_pipes]
      by_cases hl : l' = ⟨s.currentWorker, hlt⟩
      · subst hl
        rw [Function.update_self]
        exact List.mem_append_left _ hq
      · rwa [Function.update_of_ne hl]
    | add | list => exact hq

/-- A step of the clients. -/
theorem Kept.envStep {e : Environment} (h : s.Kept) (hs : EnvStep s e s') : s'.Kept := by
  have hsock : ∀ {f : Fd} {v v' : Sock}, s.socks f = some v → (s.setSock f (some v')).Kept := by
    intro f v v' hv
    refine h.mono (fun f' hf' => ?_) fun _ _ hq => hq
    by_cases hf : f' = f
    · subst hf
      simp [hv]
    · simpa [hf] using hf'
  have harm : ∀ {s₁ : State c} {f : Fd}, s₁.Kept → (s₁.arm f).Kept := by
    intro s₁ f h₁
    refine h₁.mono (fun _ hf' => hf') fun q f' hq => ?_
    cases q with
    | list l =>
      by_cases hf : f' = f
      · subst hf
        simpa using hq
      · simpa [hf] using hq
    | main | pipe | add => exact hq
  cases hs with
  | data hv hne hopen => exact harm (hsock hv)
  | signalled hv => exact harm (hsock hv)
  | silent hv => exact hsock hv

/-- Every open client is held in every run in which no `EPOLL_CTL_ADD` fails. -/
theorem Kept.of_reachable (hr : (server c).ReachableUnder AddSucceeds s) : s.Kept := by
  induction hr with
  | init h =>
    rw [h]
    intro f hf
    exact absurd rfl hf
  | step hr hok hs ih =>
    cases step_spec hs with
    | loop hl => exact ih.loopStep (Custody.of_reachable hr) hok hl
    | main _ hm => exact ih.mainStep hm
    | env he => exact ih.envStep he

end State

/-- When no `EPOLL_CTL_ADD` fails, the open clients are those that exactly one place holds. -/
theorem one_holder {s : State c} (hr : (server c).ReachableUnder AddSucceeds s) (f : Fd) :
    s.socks f ≠ none ↔ ∃! p, s.Holds p f := by
  have hi := Custody.of_reachable hr
  constructor
  · intro hopen
    exact hi.exclusive.existsUnique (Kept.of_reachable hr f hopen)
  · rintro ⟨p, hp, -⟩
    exact hi.isOpen p f hp

/-- A run in which a number is used for the second time. -/
theorem one_holder_of_reused :
    ∃ s : State epollMultithreadServer, s.socks 5 ≠ none ∧ ∃! p, s.Holds p 5 := by
  obtain ⟨s, hr, hp⟩ := TransitionSystem.exists_of_execUnder (server epollMultithreadServer)
    AddSucceeds (Action.connect (worker 0) 5 ++ Action.disconnect (worker 0) 5 ++
      Action.connect (worker 1) 5) (fun s => (s.socks 5).isSome) rfl
    (by decide +kernel)
  have hopen : s.socks 5 ≠ none := Option.isSome_iff_ne_none.mp hp
  exact ⟨s, hopen, (one_holder hr 5).mp hopen⟩

end DeepInIo.EpollServer
