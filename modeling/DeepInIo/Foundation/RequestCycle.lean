import Mathlib.Data.List.Infix
import Mathlib.Data.Multiset.AddSub
import Mathlib.Logic.Relation

/-!
# A cycle of requests and responses

A server reads requests from a connection and brings each of them to a worker.  The worker puts the
response into the buffer of the connection and announces it to the handler of the connection.  The
handler switches the connection from reading to writing, sends the buffer, in as many pieces as it
takes, and switches back.

The buffer holds one response, and nothing in this cycle keeps two requests of a connection apart.
`RequestCycle` is the cycle of one connection whose requests are read only when everything before
was answered; its invariant says that one thing at a time is on its way: a request, an announcement,
or the buffer (`RequestCycle.Inv.one`).  The bytes sent are then the responses in the order of the
requests (`RequestCycle.Inv.written_in_order`, `RequestCycle.Inv.of_answered`).
-/

namespace DeepInIo

/-- What the handler of a connection is doing with its buffer. -/
inductive WriteStage
  /-- nothing -/
  | away
  /-- it found nothing to send -/
  | idling
  /-- it is sending -/
  | sending
  /-- it has found everything sent -/
  | sent
  /-- it has emptied the buffer -/
  | emptied
  deriving DecidableEq

/-- The handler is sending the buffer. -/
@[simp]
def WriteStage.busy : WriteStage → Bool
  | .sending | .sent | .emptied => true
  | .away | .idling => false

/-- A connection with its requests of type `β` and its bytes of type `α`. -/
structure RequestCycle (α β : Type*) where
  /-- All requests that were read, in order. -/
  heard : List β
  /-- The requests on their way to a worker. -/
  asked : Multiset β
  /-- The number of announcements on their way to the handler. -/
  told : ℕ
  /-- The handler has asked for events of writing, otherwise of reading. -/
  writing : Bool
  /-- The handler has an event, and is still to read for it. -/
  readAhead : Bool
  /-- The handler has an event, and is still to write for it. -/
  writeAhead : Bool
  /-- The handler is collecting events. -/
  waiting : Bool
  stage : WriteStage
  /-- The buffer, of which the bytes from `pos` to `size` are to be sent. -/
  content : List α
  pos : ℕ
  size : ℕ
  /-- The bytes that were sent. -/
  written : List α

namespace RequestCycle

variable {α β : Type*} {ok : β → Prop} {resp : β → List α} {e e' : RequestCycle α β}

/-- The bytes that are still to be sent. -/
def unsent (e : RequestCycle α β) : List α :=
  (e.content.drop e.pos).take (e.size - e.pos)

/-- As many bytes were sent as the responses to all requests have. -/
def Answered (resp : β → List α) (e : RequestCycle α β) : Prop :=
  (e.heard.map resp).flatten.length ≤ e.written.length

/-- The steps of the cycle, for the requests that the server accepts and the responses to them. -/
inductive Step (ok : β → Prop) (resp : β → List α) : RequestCycle α β → RequestCycle α β → Prop
  /-- The handler goes on with its events; it begins to collect new ones when none is left. -/
  | proceed (e : RequestCycle α β) (rd wr wt : Bool) (hr : rd = true → e.readAhead = true)
      (hw : wr = true → e.writeAhead = true)
      (ht : wt = true → e.waiting = true ∨ (rd = false ∧ wr = false)) :
      Step ok resp e { e with readAhead := rd, writeAhead := wr, waiting := wt }
  /-- An event of the kind asked for is collected. -/
  | collect (e : RequestCycle α β) (rd wr : Bool) (ht : e.waiting = true)
      (hr : rd = true → e.writing = false) (hw : wr = true → e.writing = true) :
      Step ok resp e { e with readAhead := e.readAhead || rd, writeAhead := e.writeAhead || wr }
  /-- A request is read for an event, when everything before was answered. -/
  | read (e : RequestCycle α β) (d : β) (hd : ok d) (hr : e.readAhead = true) (hs : e.stage = .away)
      (ha : e.Answered resp) :
      Step ok resp e { e with heard := e.heard ++ [d], asked := d ::ₘ e.asked }
  /-- A worker puts a response into the buffer, and has still to announce it. -/
  | answer (e : RequestCycle α β) (d : β) (rest : Multiset β) (content : List α)
      (hd : e.asked = d ::ₘ rest) (hc : content.take (resp d).length = resp d) :
      Step ok resp e { e with
        asked := rest, told := e.told + 1, content := content, pos := 0, size := (resp d).length }
  /-- The handler takes an announcement and switches to writing. -/
  | toWrite (e : RequestCycle α β) (k : ℕ) (hk : e.told = k + 1) (hs : e.stage = .away)
      (ht : e.waiting = false) : Step ok resp e { e with told := k, writing := true }
  /-- The handler begins to send. -/
  | enter (e : RequestCycle α β) (hw : e.writeAhead = true) (hs : e.stage = .away)
      (hz : e.size ≠ 0) :
      Step ok resp e { e with stage := .sending }
  /-- The handler finds nothing to send. -/
  | nothing (e : RequestCycle α β) (hs : e.stage = .away) (hz : e.size = 0) :
      Step ok resp e { e with stage := .idling }
  /-- The handler sends some bytes. -/
  | write (e : RequestCycle α β) (len : ℕ) (hs : e.stage = .sending) (hl : len ≤ e.unsent.length) :
      Step ok resp e { e with pos := e.pos + len, written := e.written ++ e.unsent.take len }
  /-- The handler cannot send more, and is done with the event. -/
  | leave (e : RequestCycle α β) (wr : Bool) (hw : wr = true → e.writeAhead = true)
      (hs : e.stage = .sending) (hz : e.pos < e.size) :
      Step ok resp e { e with stage := .away, writeAhead := wr }
  /-- The handler finds everything sent. -/
  | done (e : RequestCycle α β) (hs : e.stage = .sending) (hz : e.size ≤ e.pos) :
      Step ok resp e { e with stage := .sent }
  /-- The handler empties the buffer. -/
  | reset (e : RequestCycle α β) (hs : e.stage = .sent) :
      Step ok resp e { e with stage := .emptied, pos := 0, size := 0 }
  /-- The handler switches to reading and is done with the event. -/
  | toRead (e : RequestCycle α β) (wr : Bool) (hw : wr = true → e.writeAhead = true)
      (hs : e.stage = .idling ∨ e.stage = .emptied) (ht : e.waiting = false) :
      Step ok resp e { e with stage := .away, writing := false, writeAhead := wr }

/-! ### The invariant -/

/-- Where the turn of the connection is: with a request, with an announcement, or with the handler,
whose events fit to it. -/
structure Turn (e : RequestCycle α β) : Prop where
  one : e.asked.card + e.told + e.writing.toNat ≤ 1
  calm : 0 < e.asked.card + e.told → e.writeAhead = false
  oneWay : e.readAhead = true → e.writeAhead = false
  waitRead : e.waiting = true → e.readAhead = true → e.writing = false
  waitWrite : e.waiting = true → e.writeAhead = true → e.writing = true
  busy : e.stage.busy = true → e.writing = true
  idling : e.stage = .idling → e.writing = false

/-- What the buffer holds at each turn. -/
structure Held (e : RequestCycle α β) : Prop where
  pos_le : e.pos ≤ e.size
  size_le : e.size ≤ e.content.length
  empty : e.told = 0 → e.writing = false → e.size = 0
  full : 0 < e.told → e.pos = 0 ∧ 0 < e.size
  away : e.writing = true → e.stage = .away → e.pos < e.size
  sent : e.stage = .sent → e.size ≤ e.pos
  emptied : e.stage = .emptied → e.size = 0

/-- What was sent: the responses to all requests but for what is in the buffer, or to all but one
that is on its way. -/
structure Sent (ok : β → Prop) (resp : β → List α) (e : RequestCycle α β) : Prop where
  all : e.asked = 0 → e.written ++ e.unsent = (e.heard.map resp).flatten
  but : ∀ d ∈ e.asked, ∃ front, e.heard = front ++ [d] ∧ e.written = (front.map resp).flatten
  accepted : ∀ d ∈ e.heard, ok d

/-- The invariant of a connection. -/
structure Inv (ok : β → Prop) (resp : β → List α) (e : RequestCycle α β) : Prop where
  turn : e.Turn
  held : e.Held
  sent : e.Sent ok resp

section turns

/-- There is something to send as long as the position is before the size. -/
theorem unsent_ne_nil (hsize : e.size ≤ e.content.length) (hlt : e.pos < e.size) :
    e.unsent ≠ [] := by
  intro hnil
  have hlen := congrArg List.length hnil
  rw [unsent, List.length_take, List.length_drop, List.length_nil] at hlen
  omega

/-- Nothing is left to send once the position has reached the size. -/
theorem unsent_eq_nil (hle : e.size ≤ e.pos) : e.unsent = [] := by
  rw [unsent, Nat.sub_eq_zero_of_le hle, List.take_zero]

/-- There is no more to send than the position is behind the size. -/
theorem length_unsent_le (e : RequestCycle α β) : e.unsent.length ≤ e.size - e.pos :=
  List.length_take_le ..

/-- While a request is on its way, no other is, nothing is announced, and the handler has no
turn. -/
theorem Turn.of_asked (h : e.Turn) {d : β} {rest : Multiset β} (hd : e.asked = d ::ₘ rest) :
    rest = 0 ∧ e.told = 0 ∧ e.writing = false := by
  have hone := h.one
  rw [hd, Multiset.card_cons] at hone
  have hrest : rest.card = 0 := by omega
  have hwriting : e.writing.toNat = 0 := by omega
  exact ⟨Multiset.card_eq_zero.mp hrest, by omega, Bool.toNat_eq_zero.mp hwriting⟩

/-- While something is announced, no request is on its way, and the handler has no turn. -/
theorem Turn.of_told (h : e.Turn) {k : ℕ} (hk : e.told = k + 1) :
    e.asked = 0 ∧ k = 0 ∧ e.writing = false := by
  have hone := h.one
  have hasked : e.asked.card = 0 := by omega
  have hwriting : e.writing.toNat = 0 := by omega
  exact ⟨Multiset.card_eq_zero.mp hasked, by omega, Bool.toNat_eq_zero.mp hwriting⟩

/-- While the handler has its turn, no request is on its way, and nothing is announced. -/
theorem Turn.of_writing (h : e.Turn) (hw : e.writing = true) : e.asked = 0 ∧ e.told = 0 := by
  have hone := h.one
  rw [hw, Bool.toNat_true] at hone
  have hasked : e.asked.card = 0 := by omega
  exact ⟨Multiset.card_eq_zero.mp hasked, by omega⟩

/-- When as many bytes were sent as the responses have, no request is on its way, and nothing is
left to send. -/
theorem Inv.of_answered (h : e.Inv ok resp) (hresp : ∀ d, ok d → resp d ≠ [])
    (ha : e.Answered resp) :
    e.asked = 0 ∧ e.unsent = [] ∧ e.written = (e.heard.map resp).flatten := by
  have hasked : e.asked = 0 := by
    refine Multiset.eq_zero_of_forall_notMem fun d hd => ?_
    obtain ⟨front, hheard, hwritten⟩ := h.sent.but d hd
    have hne := hresp d (h.sent.accepted d (by rw [hheard]; simp))
    have hpos := List.length_pos_iff.mpr hne
    rw [Answered, hheard, hwritten, List.map_append, List.flatten_append, List.length_append,
      List.map_singleton, List.flatten_singleton] at ha
    omega
  have hall := h.sent.all hasked
  have hunsent : e.unsent = [] := by
    have hlen := congrArg List.length hall
    rw [List.length_append] at hlen
    rw [Answered] at ha
    exact List.length_eq_zero_iff.mp (by omega)
  rw [hunsent, List.append_nil] at hall
  exact ⟨hasked, hunsent, hall⟩

/-- When everything was answered and the handler is not at its buffer, it is nobody's turn, and the
buffer is empty. -/
theorem Inv.idle (h : e.Inv ok resp) (hresp : ∀ d, ok d → resp d ≠ []) (ha : e.Answered resp)
    (hs : e.stage = .away) : e.told = 0 ∧ e.writing = false ∧ e.pos = 0 ∧ e.size = 0 := by
  obtain ⟨-, hunsent, -⟩ := h.of_answered hresp ha
  have hle : e.size ≤ e.pos := by
    by_contra hlt
    exact unsent_ne_nil h.held.size_le (not_le.mp hlt) hunsent
  have htold : e.told = 0 := by
    by_contra hne
    obtain ⟨hpos, hsize⟩ := h.held.full (Nat.pos_of_ne_zero hne)
    omega
  have hwriting : e.writing = false := by
    by_contra hw
    have hlt := h.held.away (Bool.not_eq_false _ ▸ hw) hs
    omega
  have hsize := h.held.empty htold hwriting
  have hpos := h.held.pos_le
  exact ⟨htold, hwriting, by omega, hsize⟩

end turns

/-- A connection with which nothing was exchanged. -/
def initial (content : List α) : RequestCycle α β where
  heard := []
  asked := 0
  told := 0
  writing := false
  readAhead := false
  writeAhead := false
  waiting := false
  stage := .away
  content := content
  pos := 0
  size := 0
  written := []

theorem inv_initial (content : List α) : (initial content : RequestCycle α β).Inv ok resp where
  turn := ⟨Nat.zero_le 1, fun _ => rfl, nofun, nofun, nofun, nofun, nofun⟩
  held := ⟨le_rfl, Nat.zero_le _, fun _ _ => rfl, nofun, nofun, nofun, nofun⟩
  sent := ⟨fun _ => rfl, fun d hd => absurd hd (Multiset.notMem_zero d), nofun⟩

/-! ### The steps keep it -/

section steps

/-- A step passes the turn on. -/
theorem Step.turn (h : Step ok resp e e') (hi : e.Inv ok resp) (hresp : ∀ d, ok d → resp d ≠ []) :
    e'.Turn := by
  obtain ⟨hone, hcalm, honeWay, hwaitRead, hwaitWrite, hbusy, hidling⟩ := hi.turn
  cases h with
  | proceed rd wr wt hr hw ht =>
    have hdown : ∀ {b : Bool}, e.writeAhead = false → (b = true → e.writeAhead = true) →
        b = false := by
      intro b hfalse hb
      by_contra hne
      rw [hb (Bool.not_eq_false _ ▸ hne)] at hfalse
      cases hfalse
    refine ⟨hone, fun hpos => hdown (hcalm hpos) hw, fun hrd => hdown (honeWay (hr hrd)) hw,
      fun hwt hrd => ?_, fun hwt hwr => ?_, hbusy, hidling⟩
    · rcases ht hwt with hold | ⟨hno, -⟩
      · exact hwaitRead hold (hr hrd)
      · rw [hno] at hrd
        cases hrd
    · rcases ht hwt with hold | ⟨-, hno⟩
      · exact hwaitWrite hold (hw hwr)
      · rw [hno] at hwr
        cases hwr
  | collect rd wr ht hr hw =>
    have hread : (e.readAhead || rd) = true → e.writing = false := by
      intro hor
      rcases Bool.or_eq_true_iff.mp hor with hold | hnew
      · exact hwaitRead ht hold
      · exact hr hnew
    have hwrite : (e.writeAhead || wr) = true → e.writing = true := by
      intro hor
      rcases Bool.or_eq_true_iff.mp hor with hold | hnew
      · exact hwaitWrite ht hold
      · exact hw hnew
    refine ⟨hone, fun hpos => ?_, fun hrd => ?_, fun _ => hread, fun _ => hwrite, hbusy, hidling⟩
    · by_contra hne
      have hwriting := hwrite (Bool.not_eq_false _ ▸ hne)
      obtain ⟨hasked, htold⟩ := hi.turn.of_writing hwriting
      change 0 < e.asked.card + e.told at hpos
      rw [hasked, htold] at hpos
      exact absurd hpos (lt_irrefl 0)
    · by_contra hne
      have hwriting := hwrite (Bool.not_eq_false _ ▸ hne)
      rw [hread hrd] at hwriting
      cases hwriting
  | read d hd hr hs ha =>
    obtain ⟨hasked, -, -⟩ := hi.of_answered hresp ha
    obtain ⟨htold, hwriting, -, -⟩ := hi.idle hresp ha hs
    refine ⟨?_, fun _ => honeWay hr, honeWay, hwaitRead, hwaitWrite, hbusy, hidling⟩
    change (d ::ₘ e.asked).card + e.told + e.writing.toNat ≤ 1
    rw [hasked, htold, hwriting]
    rfl
  | answer d rest content hd hc =>
    obtain ⟨hrest, htold, hwriting⟩ := hi.turn.of_asked hd
    have hahead : e.writeAhead = false := hcalm (by rw [hd, Multiset.card_cons]; omega)
    refine ⟨?_, fun _ => hahead, honeWay, hwaitRead, hwaitWrite, hbusy, hidling⟩
    change rest.card + (e.told + 1) + e.writing.toNat ≤ 1
    rw [hrest, htold, hwriting]
    rfl
  | toWrite k hk hs ht =>
    obtain ⟨hasked, hzero, -⟩ := hi.turn.of_told hk
    refine ⟨?_, fun hpos => ?_, honeWay, fun hwt => ?_, fun hwt => ?_, fun _ => rfl,
      fun hstage => ?_⟩
    · change e.asked.card + k + 1 ≤ 1
      rw [hasked, hzero]
      rfl
    · change 0 < e.asked.card + k at hpos
      rw [hasked, hzero] at hpos
      exact absurd hpos (lt_irrefl 0)
    · change e.waiting = true at hwt
      rw [ht] at hwt
      cases hwt
    · change e.waiting = true at hwt
      rw [ht] at hwt
      cases hwt
    · change e.stage = .idling at hstage
      rw [hs] at hstage
      cases hstage
  | enter hw hs hz =>
    -- an event of writing is handled, so that neither a request nor an announcement is on its way
    have hnone : e.asked.card + e.told = 0 := by
      by_contra hne
      rw [hcalm (Nat.pos_of_ne_zero hne)] at hw
      cases hw
    have hwriting : e.writing = true := by
      by_contra hne
      exact hz (hi.held.empty (by omega) (Bool.not_eq_true _ ▸ hne))
    exact ⟨hone, hcalm, honeWay, hwaitRead, hwaitWrite, fun _ => hwriting, nofun⟩
  | nothing hs hz =>
    refine ⟨hone, hcalm, honeWay, hwaitRead, hwaitWrite, nofun, fun _ => ?_⟩
    by_contra hne
    have hlt := hi.held.away (Bool.not_eq_false _ ▸ hne) hs
    omega
  | write len hs hl => exact ⟨hone, hcalm, honeWay, hwaitRead, hwaitWrite, hbusy, hidling⟩
  | leave wr hw hs hz =>
    have hwriting := hbusy (by rw [hs]; rfl)
    obtain ⟨hasked, htold⟩ := hi.turn.of_writing hwriting
    refine ⟨hone, fun hpos => ?_, fun hrd => ?_, hwaitRead, fun _ _ => hwriting, nofun, nofun⟩
    · change 0 < e.asked.card + e.told at hpos
      rw [hasked, htold] at hpos
      exact absurd hpos (lt_irrefl 0)
    · by_contra hne
      have hold := hw (Bool.not_eq_false _ ▸ hne)
      rw [honeWay hrd] at hold
      cases hold
  | done hs hz =>
    exact ⟨hone, hcalm, honeWay, hwaitRead, hwaitWrite, fun _ => hbusy (by rw [hs]; rfl), nofun⟩
  | reset hs =>
    exact ⟨hone, hcalm, honeWay, hwaitRead, hwaitWrite, fun _ => hbusy (by rw [hs]; rfl), nofun⟩
  | toRead wr hw hs ht =>
    have hdown : e.writeAhead = false → wr = false := by
      intro hfalse
      by_contra hne
      rw [hw (Bool.not_eq_false _ ▸ hne)] at hfalse
      cases hfalse
    refine ⟨?_, fun hpos => hdown (hcalm hpos), fun hrd => hdown (honeWay hrd), fun _ _ => rfl,
      fun hwt => ?_, nofun, nofun⟩
    · change e.asked.card + e.told + 0 ≤ 1
      omega
    · change e.waiting = true at hwt
      rw [ht] at hwt
      cases hwt

/-- A step leaves in the buffer what belongs there. -/
theorem Step.held (h : Step ok resp e e') (hi : e.Inv ok resp) (hresp : ∀ d, ok d → resp d ≠ []) :
    e'.Held := by
  obtain ⟨hpos, hsize, hempty, hfull, haway, hsent, hemptied⟩ := hi.held
  cases h with
  | proceed rd wr wt hr hw ht => exact ⟨hpos, hsize, hempty, hfull, haway, hsent, hemptied⟩
  | collect rd wr ht hr hw => exact ⟨hpos, hsize, hempty, hfull, haway, hsent, hemptied⟩
  | read d hd hr hs ha => exact ⟨hpos, hsize, hempty, hfull, haway, hsent, hemptied⟩
  | answer d rest content hd hc =>
    obtain ⟨-, -, hwriting⟩ := hi.turn.of_asked hd
    obtain ⟨front, hheard, -⟩ := hi.sent.but d (by rw [hd]; exact Multiset.mem_cons_self d rest)
    have hlen : (resp d).length ≤ content.length := by
      have htake := congrArg List.length hc
      rw [List.length_take] at htake
      omega
    have hne : 0 < (resp d).length :=
      List.length_pos_iff.mpr (hresp d (hi.sent.accepted d (by rw [hheard]; simp)))
    have hidle : e.stage.busy = true → False := by
      intro hbusy
      rw [hi.turn.busy hbusy] at hwriting
      cases hwriting
    refine ⟨Nat.zero_le _, hlen, fun htold => ?_, fun _ => ⟨rfl, hne⟩, fun hw => ?_, fun hs => ?_,
      fun hs => ?_⟩
    · exact absurd htold (Nat.succ_ne_zero e.told)
    · change e.writing = true at hw
      rw [hwriting] at hw
      cases hw
    · change e.stage = .sent at hs
      exact (hidle (by rw [hs]; rfl)).elim
    · change e.stage = .emptied at hs
      exact (hidle (by rw [hs]; rfl)).elim
  | toWrite k hk hs ht =>
    obtain ⟨hzero, hlt⟩ := hfull (by omega)
    obtain ⟨-, hnone, -⟩ := hi.turn.of_told hk
    refine ⟨hpos, hsize, nofun, fun hk' => ?_, fun _ _ => ?_, hsent, hemptied⟩
    · change 0 < k at hk'
      omega
    · change e.pos < e.size
      omega
  | enter hw hs hz => exact ⟨hpos, hsize, hempty, hfull, nofun, nofun, nofun⟩
  | nothing hs hz => exact ⟨hpos, hsize, hempty, hfull, nofun, nofun, nofun⟩
  | write len hs hl =>
    have hle := e.length_unsent_le
    obtain ⟨-, htold⟩ := hi.turn.of_writing (hi.turn.busy (by rw [hs]; rfl))
    have hother : ∀ {stage : WriteStage}, stage ≠ .sending → e.stage ≠ stage := by
      rintro _ hne rfl
      exact hne hs
    refine ⟨?_, hsize, hempty, fun ht => ?_, fun _ hs' => ?_, fun hs' => ?_, fun hs' => ?_⟩
    · change e.pos + len ≤ e.size
      omega
    · change 0 < e.told at ht
      omega
    · exact absurd hs' (hother nofun)
    · exact absurd hs' (hother nofun)
    · exact absurd hs' (hother nofun)
  | leave wr hw hs hz => exact ⟨hpos, hsize, hempty, hfull, fun _ _ => hz, nofun, nofun⟩
  | done hs hz => exact ⟨hpos, hsize, hempty, hfull, nofun, fun _ => hz, nofun⟩
  | reset hs =>
    obtain ⟨-, htold⟩ := hi.turn.of_writing (hi.turn.busy (by rw [hs]; rfl))
    refine ⟨le_rfl, Nat.zero_le _, fun _ _ => rfl, fun ht => ?_, nofun, nofun, fun _ => rfl⟩
    change 0 < e.told at ht
    omega
  | toRead wr hw hs ht =>
    refine ⟨hpos, hsize, fun htold _ => ?_, hfull, nofun, nofun, nofun⟩
    rcases hs with hs | hs
    · exact hempty htold (hi.turn.idling hs)
    · exact hemptied hs

/-- A step sends nothing but the responses. -/
theorem Step.sent (h : Step ok resp e e') (hi : e.Inv ok resp) (hresp : ∀ d, ok d → resp d ≠ []) :
    e'.Sent ok resp := by
  obtain ⟨hall, hbut, haccepted⟩ := hi.sent
  cases h with
  | read d hd hr hs ha =>
    obtain ⟨hasked, -, hwritten⟩ := hi.of_answered hresp ha
    refine ⟨fun hnone => ?_, fun d' hd' => ?_, fun d' hd' => ?_⟩
    · exact absurd hnone (Multiset.cons_ne_zero)
    · change d' ∈ d ::ₘ e.asked at hd'
      rw [hasked, Multiset.mem_cons] at hd'
      obtain rfl := hd'.resolve_right (Multiset.notMem_zero d')
      exact ⟨e.heard, rfl, hwritten⟩
    · rcases List.mem_append.mp hd' with hold | hnew
      · exact haccepted d' hold
      · rw [List.mem_singleton.mp hnew]
        exact hd
  | answer d rest content hd hc =>
    obtain ⟨hrest, -, -⟩ := hi.turn.of_asked hd
    obtain ⟨front, hheard, hwritten⟩ := hbut d (by rw [hd]; exact Multiset.mem_cons_self d rest)
    refine ⟨fun _ => ?_, fun d' hd' => ?_, haccepted⟩
    · change e.written ++ ((content.drop 0).take ((resp d).length - 0)) = (e.heard.map resp).flatten
      rw [List.drop_zero, Nat.sub_zero, hc, hheard, hwritten, List.map_append, List.flatten_append,
        List.map_singleton, List.flatten_singleton]
    · change d' ∈ rest at hd'
      rw [hrest] at hd'
      exact absurd hd' (Multiset.notMem_zero d')
  | write len hs hl =>
    obtain ⟨hasked, -⟩ := hi.turn.of_writing (hi.turn.busy (by rw [hs]; rfl))
    refine ⟨fun _ => ?_, fun d' hd' => ?_, haccepted⟩
    · have hrest : (e.content.drop (e.pos + len)).take (e.size - (e.pos + len)) =
          e.unsent.drop len := by
        rw [unsent, List.drop_take, List.drop_drop, Nat.sub_sub]
      change (e.written ++ e.unsent.take len) ++ (e.content.drop (e.pos + len)).take _ = _
      rw [hrest, List.append_assoc, List.take_append_drop]
      exact hall hasked
    · change d' ∈ e.asked at hd'
      rw [hasked] at hd'
      exact absurd hd' (Multiset.notMem_zero d')
  | reset hs =>
    have hnil : e.unsent = [] := unsent_eq_nil (hi.held.sent hs)
    refine ⟨fun hasked => ?_, hbut, haccepted⟩
    have hold := hall hasked
    rw [hnil] at hold
    change e.written ++ (e.content.drop 0).take 0 = _
    rw [List.take_zero]
    exact hold
  | proceed rd wr wt hr hw ht => exact ⟨hall, hbut, haccepted⟩
  | collect rd wr ht hr hw => exact ⟨hall, hbut, haccepted⟩
  | toWrite k hk hs ht => exact ⟨hall, hbut, haccepted⟩
  | enter hw hs hz => exact ⟨hall, hbut, haccepted⟩
  | nothing hs hz => exact ⟨hall, hbut, haccepted⟩
  | leave wr hw hs hz => exact ⟨hall, hbut, haccepted⟩
  | done hs hz => exact ⟨hall, hbut, haccepted⟩
  | toRead wr hw hs ht => exact ⟨hall, hbut, haccepted⟩

/-- Every step keeps the invariant. -/
theorem Step.inv (h : Step ok resp e e') (hi : e.Inv ok resp) (hresp : ∀ d, ok d → resp d ≠ []) :
    e'.Inv ok resp :=
  ⟨h.turn hi hresp, h.held hi hresp, h.sent hi hresp⟩

/-- Runs keep the invariant. -/
theorem Inv.steps (hi : e.Inv ok resp) (hresp : ∀ d, ok d → resp d ≠ [])
    (h : Relation.ReflTransGen (Step ok resp) e e') : e'.Inv ok resp := by
  induction h with
  | refl => exact hi
  | tail _ hs ih => exact hs.inv ih hresp

end steps

/-! ### What the invariant says -/

/-- The bytes sent are a prefix of the responses to the requests. -/
theorem Inv.written_in_order (hi : e.Inv ok resp) : e.written <+: (e.heard.map resp).flatten := by
  by_cases hasked : e.asked = 0
  · rw [← hi.sent.all hasked]
    exact List.prefix_append ..
  · obtain ⟨d, hd⟩ := Multiset.exists_mem_of_ne_zero hasked
    obtain ⟨front, hheard, hwritten⟩ := hi.sent.but d hd
    rw [hheard, hwritten, List.map_append, List.flatten_append]
    exact List.prefix_append ..

end RequestCycle

end DeepInIo
