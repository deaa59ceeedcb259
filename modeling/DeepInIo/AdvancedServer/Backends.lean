import DeepInIo.AdvancedServer.Basic
import Mathlib.Data.Int.Notation
import Mathlib.Algebra.Order.Group.Nat
import Mathlib.Logic.Function.Basic

/-!
# The two backends of the event loop

`event_loop_epoll.c` keeps one registration for a descriptor, with a mask, and `EPOLL_CTL_MOD`
replaces it.  `event_loop_kqueue.c` keeps one for a descriptor and a filter; `kqueue_mod_impl` only
adds filters, and `kqueue_del_impl` deletes both.  `agreeAfterEach_iff` says for which sequences of
calls the two agree.
-/

namespace DeepInIo.AdvancedServer

/-- `EVFILT_READ` and `EVFILT_WRITE` -/
inductive EventFilter
  | read
  | write
  deriving DecidableEq

/-- The mask asks for the events of a filter. -/
def EventMask.has (events : EventMask) : EventFilter → Bool
  | .read => events.read
  | .write => events.write

/-- A call of `event_loop_add`, `event_loop_mod` or `event_loop_del`. -/
inductive LoopCall (δ : Type*)
  | add (fd : ℤ) (events : EventMask) (data : δ)
  | mod (fd : ℤ) (events : EventMask) (data : δ)
  | del (fd : ℤ)

variable {δ : Type*}

/-! ### The epoll backend -/

/-- The interest list of an epoll instance; `to_epoll_events` renames the bits of a mask one by
one. -/
abbrev EpollTable (δ : Type*) :=
  ℤ → Option (EventMask × δ)

namespace EpollTable

variable (e : EpollTable δ)

/-- `epoll_add_impl`, with the result of `EPOLL_CTL_ADD`. -/
def epollAddImpl (fd : ℤ) (events : EventMask) (data : δ) : EpollTable δ × ℤ :=
  if fd < 0 then (e, -1)
  else if (e fd).isNone then (Function.update e fd (some (events, data)), 0)
  else (e, -1)

/-- `epoll_mod_impl`, with the result of `EPOLL_CTL_MOD`. -/
def epollModImpl (fd : ℤ) (events : EventMask) (data : δ) : EpollTable δ × ℤ :=
  if fd < 0 then (e, -1)
  else if (e fd).isSome then (Function.update e fd (some (events, data)), 0)
  else (e, -1)

/-- `epoll_del_impl`, with the result of `EPOLL_CTL_DEL`. -/
def epollDelImpl (fd : ℤ) : EpollTable δ × ℤ :=
  if fd < 0 then (e, -1)
  else if (e fd).isSome then (Function.update e fd none, 0)
  else (e, -1)

/-- A call on the epoll backend. -/
def call : LoopCall δ → EpollTable δ × ℤ
  | .add fd events data => e.epollAddImpl fd events data
  | .mod fd events data => e.epollModImpl fd events data
  | .del fd => e.epollDelImpl fd

/-- The data registered for the events of a filter. -/
def interest (fd : ℤ) (filter : EventFilter) : Option δ :=
  (e fd).bind fun r => if r.1.has filter then some r.2 else none

/-- Every call succeeds. -/
def AcceptsAll : EpollTable δ → List (LoopCall δ) → Prop
  | _, [] => True
  | e, c :: cs => (e.call c).2 = 0 ∧ AcceptsAll (e.call c).1 cs

end EpollTable

/-! ### The kqueue backend -/

/-- An entry of a change list: `EV_ADD | EV_ENABLE`, perhaps with `EV_CLEAR`, or `EV_DELETE`. -/
inductive Change (δ : Type*)
  | add (fd : ℤ) (filter : EventFilter) (clear : Bool) (udata : δ)
  | delete (fd : ℤ) (filter : EventFilter)

/-- The filters registered in a kqueue, with their data. -/
abbrev KqueueTable (δ : Type*) :=
  ℤ → EventFilter → Option δ

namespace KqueueTable

variable (k : KqueueTable δ)

/-- Replace the entry of a filter. -/
def set (fd : ℤ) (filter : EventFilter) (r : Option δ) : KqueueTable δ :=
  Function.update k fd (Function.update (k fd) filter r)

/-- `kevent` without an event list, which stops at the first change that fails. -/
def kevent (k : KqueueTable δ) : List (Change δ) → KqueueTable δ × ℤ
  | [] => (k, 0)
  | .add fd filter _ udata :: changes => kevent (k.set fd filter (some udata)) changes
  | .delete fd filter :: changes =>
    if (k fd filter).isSome then kevent (k.set fd filter none) changes else (k, -1)

/-- `EV_SET(&impl->changes[impl->nchanges++], ...)`, if there is room. -/
def pushChange (maxChanges : ℕ) (changes : List (Change δ)) (c : Change δ) :
    Option (List (Change δ)) :=
  if maxChanges ≤ changes.length then none else some (changes ++ [c])

/-- The change list of `kqueue_add_impl`. -/
def addChanges (maxChanges : ℕ) (fd : ℤ) (events : EventMask) (data : δ) :
    Option (List (Change δ)) := do
  let changes ← if events.read then pushChange maxChanges [] (.add fd .read events.et data)
      else some []
  if events.write then pushChange maxChanges changes (.add fd .write events.et data)
    else some changes

/-- `kqueue_add_impl` -/
def kqueueAddImpl (maxChanges : ℕ) (fd : ℤ) (events : EventMask) (data : δ) : KqueueTable δ × ℤ :=
  if fd < 0 then (k, -1)
  else
    match addChanges maxChanges fd events data with
    | none => (k, -1)
    | some changes => k.kevent changes

/-- `kqueue_mod_impl` -/
def kqueueModImpl (maxChanges : ℕ) (fd : ℤ) (events : EventMask) (data : δ) : KqueueTable δ × ℤ :=
  k.kqueueAddImpl maxChanges fd events data

/-- The change list of `kqueue_del_impl`, as far as there is room. -/
def delChanges (maxChanges : ℕ) (fd : ℤ) : List (Change δ) :=
  let changes := (pushChange maxChanges [] (.delete fd .read)).getD []
  (pushChange maxChanges changes (.delete fd .write)).getD changes

/-- `kqueue_del_impl` -/
def kqueueDelImpl (maxChanges : ℕ) (fd : ℤ) : KqueueTable δ × ℤ :=
  if fd < 0 then (k, -1) else k.kevent (delChanges maxChanges fd)

/-- A call on the kqueue backend, whose change list has room for `maxChanges` entries. -/
def call (maxChanges : ℕ) : LoopCall δ → KqueueTable δ × ℤ
  | .add fd events data => k.kqueueAddImpl maxChanges fd events data
  | .mod fd events data => k.kqueueModImpl maxChanges fd events data
  | .del fd => k.kqueueDelImpl maxChanges fd

end KqueueTable

/-! ### Agreement -/

/-- The same interest is registered, with the same data. -/
def Agree (e : EpollTable δ) (k : KqueueTable δ) : Prop :=
  ∀ fd filter, k fd filter = e.interest fd filter

/-- After each call the backends have returned the same and agree. -/
def AgreeAfterEach (maxChanges : ℕ) : EpollTable δ → KqueueTable δ → List (LoopCall δ) → Prop
  | _, _, [] => True
  | e, k, c :: cs => ((k.call maxChanges c).2 = (e.call c).2 ∧
      Agree (e.call c).1 (k.call maxChanges c).1) ∧
      AgreeAfterEach maxChanges (e.call c).1 (k.call maxChanges c).1 cs

/-- How many changes a mask needs. -/
def EventMask.filterCount (events : EventMask) : ℕ :=
  events.read.toNat + events.write.toNat

/-- The filters that `kqueue_del_impl` has room to delete. -/
def deletedFilters (maxChanges : ℕ) : List EventFilter :=
  [EventFilter.read, EventFilter.write].take maxChanges

/-- The calls on which the backends agree: the changes fit the change list; `event_loop_mod` keeps
the registered interest; `event_loop_del` finds exactly the interest that it deletes. -/
def EpollTable.Suits (maxChanges : ℕ) (e : EpollTable δ) : LoopCall δ → Prop
  | .add _ events _ => events.filterCount ≤ maxChanges
  | .mod fd events _ => events.filterCount ≤ maxChanges ∧
      ∀ filter, (e.interest fd filter).isSome → events.has filter
  | .del fd => ∀ filter, (e.interest fd filter).isSome ↔ filter ∈ deletedFilters maxChanges

/-- Every call suits the state before it. -/
def EpollTable.SuitsEach (maxChanges : ℕ) : EpollTable δ → List (LoopCall δ) → Prop
  | _, [] => True
  | e, c :: cs => e.Suits maxChanges c ∧ SuitsEach maxChanges (e.call c).1 cs

section agreement

variable {e : EpollTable δ} {k : KqueueTable δ} {maxChanges : ℕ} {fd : ℤ} {events : EventMask}
  {data : δ}

/-! ### What the calls do -/

/-- A change list with room takes another change. -/
theorem pushChange_of_lt {changes : List (Change δ)} (c : Change δ)
    (hlt : changes.length < maxChanges) :
    KqueueTable.pushChange maxChanges changes c = some (changes ++ [c]) :=
  if_neg (not_le.mpr hlt)

/-- A full change list takes no other change. -/
theorem pushChange_of_le {changes : List (Change δ)} (c : Change δ)
    (hle : maxChanges ≤ changes.length) :
    KqueueTable.pushChange maxChanges changes c = none :=
  if_pos hle

/-- The change list of `kqueue_add_impl` has an entry for each filter of the mask when it fits. -/
theorem addChanges_of_le (hle : events.filterCount ≤ maxChanges) :
    KqueueTable.addChanges maxChanges fd events data =
      some ((if events.read then [.add fd .read events.et data] else []) ++
        if events.write then [.add fd .write events.et data] else []) := by
  rw [EventMask.filterCount] at hle
  unfold KqueueTable.addChanges
  cases hr : events.read
  · cases hw : events.write
    · rfl
    · rw [hr, hw] at hle
      exact pushChange_of_lt _ hle
  · rw [hr] at hle
    have hpos : 1 ≤ maxChanges := le_trans (Nat.le_add_right ..) hle
    rw [if_pos rfl, if_pos rfl, pushChange_of_lt _ hpos]
    cases hw : events.write
    · rfl
    · rw [hw] at hle
      exact pushChange_of_lt _ hle

/-- The change list of `kqueue_add_impl` overflows otherwise. -/
theorem addChanges_of_lt (hlt : maxChanges < events.filterCount) :
    KqueueTable.addChanges maxChanges fd events data = none := by
  rw [EventMask.filterCount] at hlt
  unfold KqueueTable.addChanges
  cases hr : events.read
  · cases hw : events.write
    · rw [hr, hw] at hlt
      exact absurd hlt (Nat.not_lt_zero _)
    · rw [hr, hw] at hlt
      exact pushChange_of_le _ (Nat.le_of_lt_succ hlt)
  · rw [if_pos rfl]
    rcases Nat.eq_zero_or_pos maxChanges with hzero | hpos
    · rw [pushChange_of_le _ hzero.le]
      rfl
    · rw [pushChange_of_lt _ hpos]
      cases hw : events.write
      · rw [hr, hw] at hlt
        exact absurd hlt (not_lt.mpr hpos)
      · rw [hr, hw] at hlt
        exact pushChange_of_le _ (Nat.le_of_lt_succ hlt)

/-- The change list of `kqueue_del_impl`. -/
theorem delChanges_eq : (KqueueTable.delChanges maxChanges fd : List (Change δ)) =
    (deletedFilters maxChanges).map (Change.delete fd) := by
  rcases maxChanges with _ | _ | m
  · rfl
  · rfl
  · simp [KqueueTable.delChanges, KqueueTable.pushChange, deletedFilters]

/-- An entry after another has been replaced. -/
theorem set_apply (k : KqueueTable δ) (fd fd' : ℤ) (filter filter' : EventFilter) (r : Option δ) :
    k.set fd filter r fd' filter' = if fd' = fd ∧ filter' = filter then r else k fd' filter' := by
  unfold KqueueTable.set
  by_cases hfd : fd' = fd
  · subst hfd
    rw [Function.update_self, Function.update_apply]
    simp only [true_and]
  · rw [Function.update_of_ne hfd, if_neg fun h => hfd h.1]

/-- `EV_ADD` of the filters of a mask. -/
theorem kevent_add (k : KqueueTable δ) :
    (k.kevent ((if events.read then [.add fd .read events.et data] else []) ++
      if events.write then [.add fd .write events.et data] else [])) =
      (fun fd' filter => if fd' = fd ∧ events.has filter then some data else k fd' filter, 0) := by
  cases hr : events.read <;> cases hw : events.write
  all_goals
    refine Prod.ext (funext fun fd' => funext fun filter => ?_) rfl
    cases filter <;> simp [KqueueTable.kevent, set_apply, EventMask.has, hr, hw]

/-- `EV_DELETE` of different filters succeeds exactly when all are registered, and then removes
them. -/
theorem kevent_delete {filters : List EventFilter} (hnodup : filters.Nodup) (k : KqueueTable δ)
    (fd : ℤ) :
    ((k.kevent (filters.map (Change.delete fd))).2 = 0 ↔
      ∀ filter ∈ filters, (k fd filter).isSome) ∧
    ((∀ filter ∈ filters, (k fd filter).isSome) → ∀ fd' filter,
      (k.kevent (filters.map (Change.delete fd))).1 fd' filter =
        if fd' = fd ∧ filter ∈ filters then none else k fd' filter) := by
  induction filters generalizing k with
  | nil => simp [KqueueTable.kevent]
  | cons filter filters ih =>
    obtain ⟨hnotMem, hnodup⟩ := List.nodup_cons.mp hnodup
    obtain ⟨hresult, htable⟩ := ih hnodup (k.set fd filter none)
    have hsome : (∀ filter' ∈ filters, (k.set fd filter none fd filter').isSome) ↔
        ∀ filter' ∈ filters, (k fd filter').isSome := by
      refine forall₂_congr fun filter' hmem => ?_
      rw [set_apply, if_neg]
      rintro ⟨-, rfl⟩
      exact hnotMem hmem
    rw [hsome] at hresult htable
    rw [List.map_cons, KqueueTable.kevent, List.forall_mem_cons]
    by_cases hreg : (k fd filter).isSome
    · rw [if_pos hreg, hresult]
      refine ⟨(and_iff_right hreg).symm, fun h fd' filter' => ?_⟩
      rw [htable h.2, set_apply]
      by_cases hfd : fd' = fd
      · by_cases hfilter : filter' = filter
        · simp [hfd, hfilter]
        · simp [hfd, hfilter]
      · simp [hfd]
    · rw [if_neg hreg]
      have hfail : (-1 : ℤ) ≠ 0 := by decide
      exact ⟨⟨fun h => absurd h hfail, fun h => absurd h.1 hreg⟩, fun h => absurd h.1 hreg⟩

/-- The interest after the registration of a descriptor has been replaced. -/
theorem interest_update (r : Option (EventMask × δ)) (fd' : ℤ) (filter : EventFilter) :
    EpollTable.interest (Function.update e fd r) fd' filter =
      if fd' = fd then r.bind fun r => if r.1.has filter then some r.2 else none
      else e.interest fd' filter := by
  unfold EpollTable.interest
  rw [Function.update_apply]
  split <;> rfl

/-! ### One call -/

/-- Registering what the epoll backend registers: the kqueue backend agrees when the changes fit and
nothing else is registered for the descriptor. -/
theorem agree_add_iff (h : Agree e k) (hfd : 0 ≤ fd) :
    ((k.kqueueAddImpl maxChanges fd events data).2 = 0 ∧
      Agree (Function.update e fd (some (events, data)))
        (k.kqueueAddImpl maxChanges fd events data).1) ↔
      events.filterCount ≤ maxChanges ∧ ∀ filter, (e.interest fd filter).isSome →
        events.has filter := by
  rw [KqueueTable.kqueueAddImpl, if_neg (not_lt.mpr hfd)]
  by_cases hle : events.filterCount ≤ maxChanges
  · rw [addChanges_of_le hle]
    simp only [kevent_add, true_and, hle, Agree, interest_update, Option.bind_some]
    constructor
    · intro hagree filter hsome
      by_contra hhas
      have heq := hagree fd filter
      rw [if_pos rfl, if_neg hhas, if_neg fun hc => hhas hc.2, h fd filter] at heq
      rw [heq] at hsome
      cases hsome
    · intro hkeep fd' filter
      by_cases hfd' : fd' = fd
      · subst hfd'
        rw [if_pos rfl]
        by_cases hhas : events.has filter
        · rw [if_pos ⟨rfl, hhas⟩, if_pos hhas]
        · rw [if_neg fun hc => hhas hc.2, if_neg hhas, h fd' filter]
          exact Option.not_isSome_iff_eq_none.mp fun hsome => hhas (hkeep filter hsome)
      · rw [if_neg fun hc => hfd' hc.1, if_neg hfd', h fd' filter]
  · rw [addChanges_of_lt (not_le.mp hle)]
    have hfail : (-1 : ℤ) ≠ 0 := by decide
    exact ⟨fun hc => absurd hc.1 hfail, fun hc => absurd hc.1 hle⟩

/-- Removing a descriptor: the backends agree when the deleted filters are the registered ones. -/
theorem agree_del_iff (h : Agree e k) (hfd : 0 ≤ fd) :
    ((k.kqueueDelImpl maxChanges fd).2 = 0 ∧
      Agree (Function.update e fd none) (k.kqueueDelImpl maxChanges fd).1) ↔
      ∀ filter, (e.interest fd filter).isSome ↔ filter ∈ deletedFilters maxChanges := by
  have hnodup : (deletedFilters maxChanges).Nodup := by
    refine List.Nodup.sublist (List.take_sublist ..) ?_
    decide
  obtain ⟨hresult, htable⟩ := kevent_delete hnodup k fd
  rw [KqueueTable.kqueueDelImpl, if_neg (not_lt.mpr hfd), delChanges_eq, hresult]
  constructor
  · rintro ⟨hall, hagree⟩ filter
    refine ⟨fun hsome => ?_, fun hmem => ?_⟩
    · by_contra hnot
      have heq := hagree fd filter
      rw [htable hall, if_neg fun hc => hnot hc.2, interest_update, if_pos rfl, h fd filter] at heq
      rw [heq] at hsome
      cases hsome
    · rw [← h fd filter]
      exact hall filter hmem
  · intro hiff
    have hall : ∀ filter ∈ deletedFilters maxChanges, (k fd filter).isSome := by
      intro filter hmem
      rw [h fd filter]
      exact (hiff filter).mpr hmem
    refine ⟨hall, fun fd' filter => ?_⟩
    rw [htable hall, interest_update]
    by_cases hfd' : fd' = fd
    · subst hfd'
      rw [if_pos rfl, Option.bind_none]
      by_cases hmem : filter ∈ deletedFilters maxChanges
      · rw [if_pos ⟨rfl, hmem⟩]
      · rw [if_neg fun hc => hmem hc.2, h fd' filter]
        exact Option.not_isSome_iff_eq_none.mp fun hsome => hmem ((hiff filter).mp hsome)
    · rw [if_neg fun hc => hfd' hc.1, if_neg hfd', h fd' filter]

/-- What the epoll backend does with a call that it accepts. -/
theorem call_of_accepted {c : LoopCall δ} (hacc : (e.call c).2 = 0) :
    match c with
    | .add fd events data =>
      0 ≤ fd ∧ e fd = none ∧ (e.call c).1 = Function.update e fd (some (events, data))
    | .mod fd events data => 0 ≤ fd ∧ (e.call c).1 = Function.update e fd (some (events, data))
    | .del fd => 0 ≤ fd ∧ (e.call c).1 = Function.update e fd none := by
  have hfail : (-1 : ℤ) ≠ 0 := by decide
  cases c with
  | add fd events data =>
    simp only [EpollTable.call, EpollTable.epollAddImpl] at hacc ⊢
    split at hacc
    · exact absurd hacc hfail
    · next hfd =>
      split at hacc
      · next hnone =>
        rw [if_neg hfd, if_pos hnone]
        exact ⟨not_lt.mp hfd, Option.isNone_iff_eq_none.mp hnone, rfl⟩
      · exact absurd hacc hfail
  | mod fd events data =>
    simp only [EpollTable.call, EpollTable.epollModImpl] at hacc ⊢
    split at hacc
    · exact absurd hacc hfail
    · next hfd =>
      split at hacc
      · next hsome =>
        rw [if_neg hfd, if_pos hsome]
        exact ⟨not_lt.mp hfd, rfl⟩
      · exact absurd hacc hfail
  | del fd =>
    simp only [EpollTable.call, EpollTable.epollDelImpl] at hacc ⊢
    split at hacc
    · exact absurd hacc hfail
    · next hfd =>
      split at hacc
      · next hsome =>
        rw [if_neg hfd, if_pos hsome]
        exact ⟨not_lt.mp hfd, rfl⟩
      · exact absurd hacc hfail

/-- The backends agree after a call that the epoll backend accepts exactly when the call suits. -/
theorem agree_call_iff {c : LoopCall δ} (h : Agree e k) (hacc : (e.call c).2 = 0) :
    ((k.call maxChanges c).2 = (e.call c).2 ∧ Agree (e.call c).1 (k.call maxChanges c).1) ↔
      e.Suits maxChanges c := by
  have hcall := call_of_accepted hacc
  rw [hacc]
  cases c with
  | add fd events data =>
    obtain ⟨hfd, hnone, htable⟩ := hcall
    have hempty : ∀ filter, e.interest fd filter = none := by
      intro filter
      rw [EpollTable.interest, hnone]
      rfl
    rw [htable]
    refine (agree_add_iff h hfd).trans ⟨fun hc => hc.1, fun hle => ⟨hle, fun filter hsome => ?_⟩⟩
    rw [hempty filter] at hsome
    cases hsome
  | mod fd events data =>
    obtain ⟨hfd, htable⟩ := hcall
    rw [htable]
    exact agree_add_iff h hfd
  | del fd =>
    obtain ⟨hfd, htable⟩ := hcall
    rw [htable]
    exact agree_del_iff h hfd

/-! ### A sequence of calls -/

/-- Backends that agree do so after each call of a sequence that the epoll backend accepts exactly
when every call suits. -/
theorem Agree.afterEach_iff {cs : List (LoopCall δ)} (h : Agree e k) (hacc : e.AcceptsAll cs) :
    AgreeAfterEach maxChanges e k cs ↔ e.SuitsEach maxChanges cs := by
  induction cs generalizing e k with
  | nil => exact Iff.rfl
  | cons c cs ih =>
    rw [AgreeAfterEach, EpollTable.SuitsEach, agree_call_iff h hacc.1]
    refine and_congr_right fun hsuits => ?_
    exact ih ((agree_call_iff h hacc.1).mpr hsuits).2 hacc.2

/-- For every sequence of calls that the epoll backend accepts, from the empty event loops on: after
each call the kqueue backend has returned the same and registers the same interest with the same
data, exactly when every call suits the registrations before it. -/
theorem agreeAfterEach_iff (cs : List (LoopCall δ)) (maxChanges : ℕ)
    (hacc : EpollTable.AcceptsAll (fun _ => none) cs) :
    AgreeAfterEach maxChanges (fun _ => none) (fun _ _ => none) cs ↔
      EpollTable.SuitsEach maxChanges (fun _ => none) cs :=
  Agree.afterEach_iff (fun _ _ => rfl) hacc

/-- A descriptor is registered for reading, then for both, and removed. -/
theorem agreeAfterEach_iff_both :
    AgreeAfterEach maxEvents (fun _ => none) (fun _ _ => none)
      [.add 5 .readEt 'a', .mod 5 { read := true, write := true } 'b', .del 5] := by
  have hone : EventMask.readEt.filterCount ≤ maxEvents := by decide
  have htwo : EventMask.filterCount { read := true, write := true } ≤ maxEvents := by decide
  have hacc : EpollTable.AcceptsAll (fun _ => none)
      [.add 5 .readEt 'a', .mod 5 { read := true, write := true } 'b', .del 5] :=
    ⟨rfl, rfl, rfl, trivial⟩
  refine (agreeAfterEach_iff _ _ hacc).mpr ⟨hone, ⟨htwo, ?_⟩, ?_, trivial⟩
  · intro filter hsome
    cases filter <;> rfl
  · intro filter
    cases filter <;> decide

/-- `event_loop_mod` from reading to writing leaves the kqueue backend reading as well. -/
theorem not_agreeAfterEach_mod :
    EpollTable.AcceptsAll (fun _ => none) [.add 5 .readEt 'a', .mod 5 .writeEt 'a'] ∧
      ¬AgreeAfterEach maxEvents (fun _ => none) (fun _ _ => none)
        [.add 5 .readEt 'a', .mod 5 .writeEt 'a'] := by
  refine ⟨⟨rfl, rfl, trivial⟩, fun h => ?_⟩
  obtain ⟨-, ⟨-, hagree⟩, -⟩ := h
  exact absurd (hagree 5 .read) (by decide)

end agreement

end DeepInIo.AdvancedServer
