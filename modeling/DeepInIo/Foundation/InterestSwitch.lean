import Mathlib.Logic.Relation

/-!
# Switching the interest of an edge-triggered descriptor

A handler serves one descriptor whose event mask asks either for reading or for writing.  It is
armed edge-triggered, so that readiness is reported when it arises, when the mask is set, and not
again.  While the mask asks for writing, arriving input is not reported; while it asks for reading,
neither is room for output.  Producers put output into the handler's buffer and send a message, upon
which the handler switches the mask to writing; when it has sent everything it switches back to
reading.

`Interest` is what matters of such a descriptor for the question whether output or input is left
behind.  The answer is `Interest.Inv.output` and `Interest.Inv.input`.
-/

namespace DeepInIo

/-- A descriptor with its mask, its pending readiness, and what its handler is doing. -/
structure Interest where
  /-- The mask asks for writing, otherwise for reading. -/
  writing : Bool
  /-- Readiness for reading is signalled and not delivered. -/
  pendRead : Bool
  /-- Readiness for writing is signalled and not delivered. -/
  pendWrite : Bool
  /-- There is input that was not read. -/
  unread : Bool
  /-- There is room for output. -/
  writable : Bool
  /-- There is output that was not sent. -/
  unsent : Bool
  /-- A message about output is on its way to the handler. -/
  message : Bool
  /-- The handler has an event, and is still to read all input for it. -/
  readAhead : Bool
  /-- The handler has an event, and is still to send output for it. -/
  writeAhead : Bool
  /-- The handler cannot send more, and is about to test whether everything was sent. -/
  final : Bool
  /-- The handler is about to switch the mask back to reading. -/
  restore : Bool

namespace Interest

variable {b b' : Interest}

/-- The steps that concern a descriptor. -/
inductive Step : Interest → Interest → Prop
  /-- A message is sent. -/
  | message (b : Interest) : Step b { b with message := true }
  /-- Input or room arises and is signalled. -/
  | notify (b : Interest) (rd wr u w : Bool) (hu : rd = false → u = b.unread)
      (hw : wr = false → w = b.writable) :
      Step b { b with
        unread := u
        writable := w
        pendRead := b.pendRead || (rd && !b.writing)
        pendWrite := b.pendWrite || (wr && b.writing) }
  /-- A producer puts output into the buffer, and has still to send its message. -/
  | put (b : Interest) (hf : b.final = false) : Step b { b with unsent := true, message := true }
  /-- An event is delivered. -/
  | deliver (b : Interest) (rd wr : Bool) (hf : b.final = false) :
      Step b { b with
        pendRead := b.pendRead && !rd
        pendWrite := b.pendWrite && !wr
        readAhead := b.readAhead || rd
        writeAhead := b.writeAhead || wr }
  /-- The handler reads input. -/
  | read (b : Interest) (u : Bool) (hu : u = true → b.unread = true) : Step b { b with unread := u }
  /-- The handler has found no more input. -/
  | readDone (b : Interest) (ra : Bool) (hu : b.unread = false) : Step b { b with readAhead := ra }
  /-- The handler sends output. -/
  | write (b : Interest) (w u : Bool) (ha : b.writeAhead = true) (hf : b.final = false)
      (hu : u = true → b.unsent = true) : Step b { b with writable := w, unsent := u }
  /-- The handler has sent everything or has found no room. -/
  | blocked (b : Interest) (h : b.unsent = true → b.writable = false) :
      Step b { b with final := true }
  /-- Not everything was sent, and the handler is done with the event. -/
  | leave (b : Interest) (wa : Bool) (hf : b.final = true) (hu : b.unsent = true) :
      Step b { b with final := false, writeAhead := wa }
  /-- Everything was sent, and the handler goes on. -/
  | sent (b : Interest) : Step b { b with final := false }
  /-- The handler finds no output. -/
  | nothing (b : Interest) (hu : b.unsent = false) : Step b { b with restore := true }
  /-- The handler empties the buffer. -/
  | reset (b : Interest) : Step b { b with unsent := false, restore := true }
  /-- The handler switches the mask to reading and is done with the event. -/
  | toRead (b : Interest) (pr wa : Bool) (hr : b.restore = true)
      (hp : b.unread = true → pr = true) :
      Step b { b with
        writing := false, pendRead := pr, pendWrite := false, restore := false, writeAhead := wa }
  /-- The handler switches the mask to writing because of a message. -/
  | toWrite (b : Interest) (msg : Bool) (hf : b.final = false) (hr : b.restore = false) :
      Step b { b with writing := true, pendRead := false, pendWrite := b.writable, message := msg }

/-- The invariant of a descriptor. -/
structure Inv (b : Interest) : Prop where
  write : b.writing = true → b.writable = true → b.pendWrite = true ∨ b.writeAhead = true
  read : b.writing = false → b.unread = true → b.pendRead = true ∨ b.readAhead = true
  response : b.unsent = true → b.message = true ∨ b.writing = true
  final : b.final = true → b.unsent = true → b.writing = true → b.writable = true →
    b.pendWrite = true
  restore : b.restore = true → b.unsent = true → b.message = true

/-- Every step keeps the invariant. -/
theorem Step.inv (h : Step b b') (hi : b.Inv) : b'.Inv := by
  obtain ⟨hwrite, hread, hresponse, hfinal, hrestore⟩ := hi
  cases h with
  | message => exact ⟨hwrite, hread, fun _ => .inl rfl, hfinal, fun _ _ => rfl⟩
  | notify rd wr u w hu hw =>
    have hout : b.writing = true → w = true → (b.writable = true → b.pendWrite = true) →
        (b.pendWrite || (wr && b.writing)) = true := by
      intro hm hroom hold
      cases wr with
      | true => simp [hm]
      | false => simp [hold ((hw rfl).symm.trans hroom)]
    refine ⟨fun hm hroom => ?_, fun hm hin => ?_, hresponse, fun hf hs hm hroom => ?_, hrestore⟩
    · cases wr with
      | true => left; simp [show b.writing = true from hm]
      | false =>
        rcases hwrite hm ((hw rfl).symm.trans hroom) with h | h
        · left; simp [h]
        · exact .inr h
    · cases rd with
      | true => left; simp [show b.writing = false from hm]
      | false =>
        rcases hread hm ((hu rfl).symm.trans hin) with h | h
        · left; simp [h]
        · exact .inr h
    · exact hout hm hroom (hfinal hf hs hm)
  | put hf =>
    refine ⟨hwrite, hread, fun _ => .inl rfl, fun hf' => ?_, fun _ _ => rfl⟩
    change b.final = true at hf'
    rw [hf] at hf'
    cases hf'
  | deliver rd wr hf =>
    refine ⟨fun hm hroom => ?_, fun hm hin => ?_, hresponse, fun hf' => ?_, hrestore⟩
    · rcases hwrite hm hroom with h | h
      · cases wr with
        | true => right; simp
        | false => left; simp [h]
      · right; simp [h]
    · rcases hread hm hin with h | h
      · cases rd with
        | true => right; simp
        | false => left; simp [h]
      · right; simp [h]
    · change b.final = true at hf'
      rw [hf] at hf'
      cases hf'
  | read u hu => exact ⟨hwrite, fun hm hin => hread hm (hu hin), hresponse, hfinal, hrestore⟩
  | readDone ra hu =>
    refine ⟨hwrite, fun _ hin => ?_, hresponse, hfinal, hrestore⟩
    change b.unread = true at hin
    rw [hu] at hin
    cases hin
  | write w u ha hf hu =>
    refine ⟨fun _ _ => .inr ha, hread, fun hs => hresponse (hu hs), fun hf' => ?_,
      fun hr hs => hrestore hr (hu hs)⟩
    change b.final = true at hf'
    rw [hf] at hf'
    cases hf'
  | blocked h =>
    refine ⟨hwrite, hread, hresponse, fun _ hs _ hroom => ?_, hrestore⟩
    change b.writable = true at hroom
    rw [h hs] at hroom
    cases hroom
  | leave wa hf hu =>
    exact ⟨fun hm hroom => .inl (hfinal hf hu hm hroom), hread, hresponse, nofun, hrestore⟩
  | sent => exact ⟨hwrite, hread, hresponse, nofun, hrestore⟩
  | nothing hu =>
    refine ⟨hwrite, hread, hresponse, hfinal, fun _ hs => ?_⟩
    change b.unsent = true at hs
    rw [hu] at hs
    cases hs
  | reset => exact ⟨hwrite, hread, nofun, fun _ hs => (nomatch hs), fun _ hs => (nomatch hs)⟩
  | toRead pr wa hr hp =>
    exact ⟨nofun, fun _ hin => .inl (hp hin), fun hs => .inl (hrestore hr hs),
      fun _ _ hm => (nomatch hm), nofun⟩
  | toWrite msg hf hr =>
    refine ⟨fun _ hroom => .inl hroom, nofun, fun _ => .inr rfl, fun hf' => ?_, fun hr' => ?_⟩
    · change b.final = true at hf'
      rw [hf] at hf'
      cases hf'
    · change b.restore = true at hr'
      rw [hr] at hr'
      cases hr'

/-- Runs keep the invariant. -/
theorem Inv.steps (hi : b.Inv) (h : Relation.ReflTransGen Step b b') : b'.Inv := by
  induction h with
  | refl => exact hi
  | tail _ hs ih => exact hs.inv ih

/-- A message may be added. -/
theorem steps_message (b : Interest) (msg : Bool) (h : b.message = true → msg = true) :
    Relation.ReflTransGen Step b { b with message := msg } := by
  by_cases heq : msg = b.message
  · rw [heq]
  · have hmsg : msg = true := by
      cases hb : b.message with
      | true => exact h hb
      | false => rw [hb] at heq; simpa using heq
    rw [hmsg]
    exact .single (.message b)

/-- Unsent output has a message on its way, or the mask asks for writing, and there is no room or a
write event that is pending or being handled. -/
theorem Inv.output (hi : b.Inv) (h : b.unsent = true) :
    b.message = true ∨ (b.writing = true ∧
      (b.writable = false ∨ b.pendWrite = true ∨ b.writeAhead = true)) := by
  rcases hi.response h with hm | hm
  · exact .inl hm
  · refine .inr ⟨hm, ?_⟩
    cases hroom : b.writable with
    | false => exact .inl rfl
    | true => exact .inr (hi.write hm hroom)

/-- Unread input has an event that is pending or being handled, or the mask asks for writing and
there is no room. -/
theorem Inv.input (hi : b.Inv) (h : b.unread = true) :
    (b.pendRead = true ∨ b.pendWrite = true ∨ b.readAhead = true ∨ b.writeAhead = true) ∨
      (b.writing = true ∧ b.writable = false) := by
  cases hm : b.writing with
  | false =>
    rcases hi.read hm h with hp | ha
    · exact .inl (.inl hp)
    · exact .inl (.inr (.inr (.inl ha)))
  | true =>
    cases hroom : b.writable with
    | false => exact .inr ⟨rfl, rfl⟩
    | true =>
      rcases hi.write hm hroom with hp | ha
      · exact .inl (.inr (.inl hp))
      · exact .inl (.inr (.inr (.inr ha)))

end Interest

end DeepInIo
