import Mathlib.Data.List.Basic
import Mathlib.Logic.Function.Basic
import Mathlib.Logic.Relation
import Mathlib.Tactic.Simps.Basic

/-!
# A service that reads streams in chunks

What a server that only reads its clients is for.  The clients are known by keys, which may be used
again.  Of every open connection there is a `Buffer`, what has arrived and was not read; the
`StreamLog` says what has happened on it: what the peer has sent, whether it has ended its stream,
and what every `read` returned.

`Service.Step` are the steps of such a service.  It takes chunks from the front of a buffer, it
reads an empty buffer only at the end of its stream, and it closes a connection only when reading
has failed or when the stream was read to its end.  So at any time the bytes sent on a connection
are those taken, in order, followed by the buffer, no `read` would have blocked, and on a finished
connection that has not failed the peer has ended its stream and all of it was taken
(`Service.intact`).
-/

namespace DeepInIo

/-- What has arrived on a connection and was not read. -/
structure Buffer (B : Type*) where
  unread : List B
  /-- Nothing more will arrive. -/
  ended : Bool

/-- What a `read` returns. -/
inductive ReadResult (B : Type*)
  | chunk (bytes : List B)
  /-- the peer has ended its stream, and everything was read -/
  | eof
  /-- there is nothing to read, and the peer has not ended its stream -/
  | again
  | error
  deriving DecidableEq

namespace ReadResult

variable {B : Type*}

/-- The bytes a `read` returns. -/
def bytes : ReadResult B → List B
  | .chunk bytes => bytes
  | _ => []

/-- A chunk has at least one and at most `size` bytes, and the `read` would not have blocked. -/
def Regular (size : ℕ) : ReadResult B → Prop
  | .chunk bytes => bytes ≠ [] ∧ bytes.length ≤ size
  | .again => False
  | .eof | .error => True

end ReadResult

namespace Buffer

variable {B : Type*} {b : Buffer B} {size : ℕ}

/-- What a `read` of at most `size` bytes returns, when it does not fail. -/
def read (size : ℕ) (b : Buffer B) : ReadResult B :=
  match b.unread with
  | [] => if b.ended then .eof else .again
  | _ :: _ => .chunk (b.unread.take size)

/-- There is something to read. -/
theorem read_of_ne (h : b.unread ≠ []) : b.read size = .chunk (b.unread.take size) := by
  unfold read
  cases hu : b.unread with
  | nil => exact absurd hu h
  | cons x u => rfl

/-- The end of the stream. -/
theorem read_of_ended (hend : b.ended = true) (h : b.unread = []) : b.read size = .eof := by
  unfold read
  rw [h, if_pos hend]

end Buffer

/-- What has happened on a connection. -/
structure Transfer (B : Type*) where
  sent : List B
  /-- The peer has ended its stream. -/
  ended : Bool
  reads : List (ReadResult B)

namespace Transfer

variable {B : Type*}

/-- A new connection. -/
def fresh : Transfer B where
  sent := []
  ended := false
  reads := []

/-- What was read, in order. -/
def taken (t : Transfer B) : List B :=
  t.reads.flatMap ReadResult.bytes

/-- The peer has ended its stream and everything that it sent was taken, unless reading has
failed. -/
def Complete (t : Transfer B) : Prop :=
  .error ∉ t.reads → t.ended = true ∧ t.taken = t.sent

end Transfer

/-- The transfers of the open connections, and the finished ones. -/
structure StreamLog (K B : Type*) where
  current : K → Transfer B
  finished : List (Transfer B)

namespace StreamLog

variable {K B : Type*}

/-- No connection yet. -/
def empty : StreamLog K B where
  current := fun _ => Transfer.fresh
  finished := []

variable [DecidableEq K] (L : StreamLog K B)

/-- Replace the transfer of a connection. -/
@[simps]
def set (k : K) (t : Transfer B) : StreamLog K B :=
  { L with current := Function.update L.current k t }

/-- A connection is opened. -/
def start (k : K) : StreamLog K B :=
  L.set k Transfer.fresh

/-- The peer sends. -/
def send (k : K) (bytes : List B) : StreamLog K B :=
  L.set k { L.current k with sent := (L.current k).sent ++ bytes }

/-- The peer ends its stream. -/
def endStream (k : K) : StreamLog K B :=
  L.set k { L.current k with ended := true }

/-- A `read` returns. -/
def read (k : K) (r : ReadResult B) : StreamLog K B :=
  L.set k { L.current k with reads := (L.current k).reads ++ [r] }

/-- A connection is opened, and what `b` holds has already arrived on it. -/
def startWith (k : K) (b : Buffer B) : StreamLog K B :=
  if b.ended then ((L.start k).send k b.unread).endStream k else (L.start k).send k b.unread

/-- A connection is closed. -/
@[simps]
def finish (k : K) : StreamLog K B :=
  { L with finished := L.finished ++ [L.current k] }

end StreamLog

/-- The open connections, with the log. -/
structure Service (K B : Type*) where
  conns : K → Option (Buffer B)
  log : StreamLog K B

namespace Service

variable {K B : Type*}

/-- No connection yet. -/
def empty : Service K B where
  conns := fun _ => none
  log := StreamLog.empty

/-- What was sent was taken or is unread, every `read` is regular, and the finished connections are
complete. -/
structure Intact (size : ℕ) (S : Service K B) : Prop where
  accounts : ∀ k b, S.conns k = some b →
    (S.log.current k).sent = (S.log.current k).taken ++ b.unread ∧ (S.log.current k).ended = b.ended
  reads : ∀ k, ∀ r ∈ (S.log.current k).reads, r.Regular size
  complete : ∀ t ∈ S.log.finished, t.Complete
  finishedReads : ∀ t ∈ S.log.finished, ∀ r ∈ t.reads, r.Regular size

/-- The service starts intact. -/
theorem intact_empty {size : ℕ} : (empty : Service K B).Intact size where
  accounts := by rintro k b ⟨⟩
  reads := by rintro k r ⟨⟩
  complete := by rintro t ⟨⟩
  finishedReads := by rintro t ⟨⟩

variable [DecidableEq K]

/-- The steps of a service that reads chunks of at most `size`. -/
inductive Step (size : ℕ) (S : Service K B) : Service K B → Prop
  | connect {k : K} (hfree : S.conns k = none) :
      Step size S ⟨Function.update S.conns k (some ⟨[], false⟩), S.log.start k⟩
  | arrive {k : K} {u bytes : List B} (hk : S.conns k = some ⟨u, false⟩) :
      Step size S ⟨Function.update S.conns k (some ⟨u ++ bytes, false⟩), S.log.send k bytes⟩
  | endStream {k : K} {b : Buffer B} (hk : S.conns k = some b) :
      Step size S ⟨Function.update S.conns k (some ⟨b.unread, true⟩), S.log.endStream k⟩
  | take {k : K} {b : Buffer B} (hk : S.conns k = some b) (hne : b.unread ≠ []) :
      Step size S ⟨Function.update S.conns k (some ⟨b.unread.drop size, b.ended⟩),
        S.log.read k (.chunk (b.unread.take size))⟩
  | eof {k : K} {b : Buffer B} (hk : S.conns k = some b) (hend : b.ended = true)
      (hempty : b.unread = []) : Step size S ⟨S.conns, S.log.read k .eof⟩
  | fail {k : K} : Step size S ⟨S.conns, S.log.read k .error⟩
  | close {k : K} {b : Buffer B} (hk : S.conns k = some b)
      (hend : .error ∈ (S.log.current k).reads ∨ b.ended = true ∧ b.unread = []) :
      Step size S ⟨Function.update S.conns k none, S.log.finish k⟩

variable {size : ℕ} {S S' : Service K B}

/-- The connection `k` changes, with its transfer. -/
theorem Intact.set {k : K} {b : Option (Buffer B)} {t : Transfer B} (h : S.Intact size)
    (haccounts : ∀ b', b = some b' → t.sent = t.taken ++ b'.unread ∧ t.ended = b'.ended)
    (hreads : ∀ r ∈ t.reads, r.Regular size) :
    (⟨Function.update S.conns k b, S.log.set k t⟩ : Service K B).Intact size := by
  refine ⟨fun k' b' hk' => ?_, fun k' => ?_, h.complete, h.finishedReads⟩
  · by_cases hk : k' = k
    · subst hk
      simp only [StreamLog.set_current, Function.update_self] at hk' ⊢
      exact haccounts b' hk'
    · simp only [StreamLog.set_current, Function.update_of_ne hk] at hk' ⊢
      exact h.accounts k' b' hk'
  · by_cases hk : k' = k
    · subst hk
      simp only [StreamLog.set_current, Function.update_self]
      exact hreads
    · simp only [StreamLog.set_current, Function.update_of_ne hk]
      exact h.reads k'

/-- A `read` takes what it returns from the front of the buffer. -/
theorem Intact.read {k : K} {b : Option (Buffer B)} {r : ReadResult B} (h : S.Intact size)
    (hr : r.Regular size)
    (hb : ∀ b', b = some b' →
      ∃ b₀, S.conns k = some b₀ ∧ b₀.unread = r.bytes ++ b'.unread ∧ b₀.ended = b'.ended) :
    (⟨Function.update S.conns k b, S.log.read k r⟩ : Service K B).Intact size := by
  apply h.set
  · intro b' hb'
    obtain ⟨b₀, hk, hunread, hended⟩ := hb b' hb'
    obtain ⟨hsent, hlog⟩ := h.accounts k b₀ hk
    refine ⟨?_, hlog.trans hended⟩
    rw [Transfer.taken] at hsent ⊢
    rw [List.flatMap_append, List.flatMap_singleton, List.append_assoc, ← hunread]
    exact hsent
  · intro r' hr'
    rw [List.mem_append, List.mem_singleton] at hr'
    rcases hr' with hold | rfl
    · exact h.reads k r' hold
    · exact hr

/-- Every step keeps the service intact. -/
theorem Step.intact (hsize : 0 < size) (hs : S.Step size S') (h : S.Intact size) :
    S'.Intact size := by
  -- a `read` that returns no byte leaves the buffers alone
  have hsame : ∀ {k : K} {r : ReadResult B}, r.Regular size → r.bytes = [] →
      (⟨S.conns, S.log.read k r⟩ : Service K B).Intact size := by
    intro k r hr hbytes
    have hread := h.read (k := k) (b := S.conns k) hr fun b hb =>
      ⟨b, hb, by rw [hbytes, List.nil_append], rfl⟩
    rwa [Function.update_eq_self] at hread
  cases hs with
  | connect hfree =>
    refine h.set ?_ (by rintro r ⟨⟩)
    rintro b' ⟨⟩
    exact ⟨rfl, rfl⟩
  | @arrive k u bytes hk =>
    refine h.set ?_ (h.reads k)
    rintro b' ⟨⟩
    obtain ⟨hsent, hended⟩ := h.accounts k _ hk
    refine ⟨?_, hended⟩
    rw [Transfer.taken] at hsent ⊢
    rw [hsent, List.append_assoc]
  | @endStream k b hk =>
    refine h.set ?_ (h.reads k)
    rintro b' ⟨⟩
    exact ⟨(h.accounts k b hk).1, rfl⟩
  | @take k b hk hne =>
    refine h.read ⟨?_, List.length_take_le size b.unread⟩ ?_
    · rw [Ne, List.take_eq_nil_iff, not_or]
      exact ⟨Nat.ne_of_gt hsize, hne⟩
    · rintro b' ⟨⟩
      exact ⟨b, hk, (List.take_append_drop size b.unread).symm, rfl⟩
  | eof => exact hsame trivial rfl
  | fail => exact hsame trivial rfl
  | @close k b hk hend =>
    have hgone : ∀ k' b', Function.update S.conns k none k' = some b' → S.conns k' = some b' := by
      intro k' b' hk'
      by_cases hkk : k' = k
      · subst hkk
        simp at hk'
      · rwa [Function.update_of_ne hkk] at hk'
    refine ⟨fun k' b' hk' => h.accounts k' b' (hgone k' b' hk'), h.reads, ?_, ?_⟩
    all_goals intro t ht
    all_goals rw [StreamLog.finish_finished, List.mem_append, List.mem_singleton] at ht
    all_goals rcases ht with hold | rfl
    · exact h.complete t hold
    · intro hok
      obtain ⟨hended, hempty⟩ := hend.resolve_left hok
      obtain ⟨hsent, hlog⟩ := h.accounts k b hk
      rw [hempty, List.append_nil] at hsent
      exact ⟨hlog.trans hended, hsent.symm⟩
    · exact h.finishedReads t hold
    · exact h.reads k

/-- The service is intact after any number of steps. -/
theorem intact (hsize : 0 < size) (h : Relation.ReflTransGen (Step size) empty S) :
    S.Intact size := by
  induction h with
  | refl => exact intact_empty
  | tail _ hs ih => exact hs.intact hsize ih

/-- A connection is opened on which something has arrived: it connects, its bytes arrive, and its
stream ends if the peer has ended it. -/
theorem startWith_run {k : K} {b : Buffer B} (hfree : S.conns k = none) :
    Relation.ReflTransGen (Step size) S
      ⟨Function.update S.conns k (some b), S.log.startWith k b⟩ := by
  obtain ⟨u, ended⟩ := b
  have hconnect : S.Step size ⟨Function.update S.conns k (some ⟨[], false⟩), S.log.start k⟩ :=
    .connect hfree
  have harrive : Step size ⟨Function.update S.conns k (some ⟨[], false⟩), S.log.start k⟩
      ⟨Function.update S.conns k (some ⟨u, false⟩), (S.log.start k).send k u⟩ := by
    have hstep : Step size ⟨Function.update S.conns k (some ⟨[], false⟩), S.log.start k⟩
        ⟨Function.update (Function.update S.conns k (some ⟨[], false⟩)) k (some ⟨[] ++ u, false⟩),
          (S.log.start k).send k u⟩ := .arrive (Function.update_self ..)
    rwa [Function.update_idem, List.nil_append] at hstep
  have hrun := (Relation.ReflTransGen.single hconnect).tail harrive
  cases ended with
  | false => exact hrun
  | true =>
    have hstep : Step size ⟨Function.update S.conns k (some ⟨u, false⟩), (S.log.start k).send k u⟩
        ⟨Function.update (Function.update S.conns k (some ⟨u, false⟩)) k (some ⟨u, true⟩),
          ((S.log.start k).send k u).endStream k⟩ :=
      .endStream (b := ⟨u, false⟩) (Function.update_self ..)
    rw [Function.update_idem] at hstep
    exact hrun.tail hstep

/-! ### A server with a table of sockets -/

section sockets

variable {V : Type*} {buffer : V → Buffer B} {socks socks' : K → Option V} {k : K}

/-- The service that a table of sockets provides. -/
@[simps]
def ofSockets (buffer : V → Buffer B) (socks : K → Option V) (log : StreamLog K B) :
    Service K B where
  conns k := (socks k).map buffer
  log := log

omit [DecidableEq K] in
/-- What the service knows of an open socket. -/
theorem ofSockets_conns_of_some {v : V} (h : socks k = some v) (log : StreamLog K B) :
    (ofSockets buffer socks log).conns k = some (buffer v) := by
  rw [ofSockets_conns, h, Option.map_some]

/-- The service when one socket has changed. -/
theorem ofSockets_update {v : Option V} (h : socks' = Function.update socks k v)
    (log log' : StreamLog K B) :
    ofSockets buffer socks' log' =
      ⟨Function.update (ofSockets buffer socks log).conns k (v.map buffer), log'⟩ := by
  unfold ofSockets
  congr 1
  funext k'
  rw [h]
  by_cases hk : k' = k
  · subst hk
    rw [Function.update_self, Function.update_self]
  · rw [Function.update_of_ne hk, Function.update_of_ne hk]

end sockets

end Service

end DeepInIo
