import DeepInIo.AdvancedServer.Connection
import DeepInIo.Foundation.HttpMessage
import Mathlib.Data.List.TakeWhile

/-!
# The framing of the responses

`process_request` announces the length that `snprintf` returned for the body, while the body is cut
to the 1023 characters that fit its buffer.  A response is well framed exactly when nothing was cut
(`framed_install_iff`).
-/

namespace DeepInIo.AdvancedServer

/-- The number in the field `Content-Length` of a head. -/
def contentLength (head : List UInt8) : Option ℕ :=
  (headerField (ascii "Content-Length") head).bind parseDecimal

/-- A message is a head that the first empty line ends, and a body of the length that the head
declares. -/
def Framed (bytes : List UInt8) : Prop :=
  ∃ head body, splitAtFirst (crlf ++ crlf) bytes = some (head, body) ∧
    contentLength head = some body.length

/-- A C string is cut at its first NUL. -/
theorem cString_eq_self_iff {s : List UInt8} : cString s = s ↔ 0 ∉ s := by
  rw [cString, List.takeWhile_eq_self_iff]
  constructor
  · intro h hmem
    simpa using h 0 hmem
  · intro h b hb
    rw [bne_iff_ne]
    rintro rfl
    exact h hb

/-- A C string holds no NUL. -/
theorem zero_notMem_cString (s : List UInt8) : 0 ∉ cString s := by
  intro hmem
  simpa using List.mem_takeWhile_imp hmem

/-- The text before the declared length. -/
def lengthIntro : List UInt8 :=
  ascii "HTTP/1.1 200 OK\r\nContent-Type: text/plain\r\nContent-Length: "

/-- The head of the response that declares the length `k`. -/
def responseHead (k : ℕ) : List UInt8 :=
  lengthIntro ++ decimal k ++ ascii "\r\nConnection: keep-alive"

/-- The head declares its length. -/
theorem contentLength_responseHead (k : ℕ) : contentLength (responseHead k) = some k := by
  have hsplit : ∀ rest, splitAtFirst (crlf ++ ascii "Content-Length" ++ [58, 32])
      (lengthIntro ++ rest) = some (ascii "HTTP/1.1 200 OK\r\nContent-Type: text/plain", rest) :=
    fun rest => rfl
  have htake : (decimal k ++ ascii "\r\nConnection: keep-alive").takeWhile (fun b => b != 13) =
      decimal k := by
    rw [List.takeWhile_append_of_pos]
    · exact List.append_nil _
    · intro b hb
      rw [bne_iff_ne]
      rintro rfl
      exact cr_notMem_toDigits k hb
  rw [contentLength, headerField, responseHead, List.append_assoc lengthIntro, hsplit,
    Option.map_some, htake, Option.bind_some]
  exact parseDecimal_toDigits k

/-- The first empty line of the response is the one after the head. -/
theorem splitAtFirst_template (k : ℕ) (body : List UInt8) :
    splitAtFirst (crlf ++ crlf) (httpResponseTemplate k body) =
      some (responseHead k, cString body) := by
  have hdigits : 13 ∉ decimal k := cr_notMem_toDigits k
  have hend : splitAtFirst (crlf ++ crlf)
      (ascii "\r\nConnection: keep-alive\r\n\r\n" ++ cString body) =
        some (ascii "\r\nConnection: keep-alive", cString body) := rfl
  rw [httpResponseTemplate, List.append_assoc, List.append_assoc]
  change splitAtFirst (crlf ++ crlf) (lengthIntro ++ _) = _
  rw [splitAtFirst_append_of_none (by decide +kernel) (by decide +kernel)]
  change (splitAtFirst (13 :: [10, 13, 10]) (decimal k ++ _)).map _ = _
  rw [splitAtFirst_append hdigits]
  change ((splitAtFirst (crlf ++ crlf) _).map _).map _ = _
  rw [hend, responseHead, Option.map_some, Option.map_some, List.append_assoc]

/-- A response is well framed when it declares the length of the body that it holds. -/
theorem framed_template_iff {k : ℕ} {body : List UInt8} :
    Framed (httpResponseTemplate k body) ↔ k = (cString body).length := by
  constructor
  · rintro ⟨head, body', hsplit, hlength⟩
    rw [splitAtFirst_template] at hsplit
    cases hsplit
    rw [contentLength_responseHead] at hlength
    exact Option.some.inj hlength
  · intro hk
    exact ⟨responseHead k, cString body, splitAtFirst_template k body,
      (contentLength_responseHead k).trans (congrArg some hk)⟩

/-! ### The body -/

/-- The length that `snprintf` returns for the body is that of the whole text. -/
theorem echoBody_snd (data : List UInt8) : (echoBody data).2 = 6 + (cString data).length := by
  rw [echoBody, snprintf, List.length_append]
  rfl

/-- The body is cut to 1023 characters. -/
theorem length_echoBody (data : List UInt8) :
    (cString (echoBody data).1).length = min 1023 (6 + (cString data).length) := by
  have hwhole : cString (echoBody data).1 = (echoBody data).1 := by
    rw [cString_eq_self_iff, echoBody, snprintf]
    intro hmem
    rcases List.mem_append.mp (List.mem_of_mem_take hmem) with hmem | hmem
    · exact absurd hmem (by decide +kernel)
    · exact zero_notMem_cString data hmem
  rw [hwhole, ← echoBody_snd, echoBody, snprintf, List.length_take]

/-! ### The installed response -/

section install

variable {n : ℕ} {data : List UInt8}

/-- The response to a chunk that `handle_read` can read always passes the size guard. -/
theorem responseFits_of_length_le (hlen : data.length ≤ bufferSize) : responseFits data = true := by
  have hsize : bufferSize = 4096 := rfl
  have hcut : (cString data).length ≤ data.length := (List.takeWhile_prefix _).length_le
  have hbody := length_echoBody data
  have hdigits : (Nat.toDigits 10 (echoBody data).2).length ≤ 4 := by
    rw [Nat.length_toDigits_le_iff (by decide) (by decide), echoBody_snd]
    omega
  have hintro : (ascii
      "HTTP/1.1 200 OK\r\nContent-Type: text/plain\r\nContent-Length: ").length = 59 := by
    decide +kernel
  have hend : (ascii "\r\nConnection: keep-alive\r\n\r\n").length = 28 := by
    decide +kernel
  have htotal : (httpResponse data).2 = 59 + (Nat.toDigits 10 (echoBody data).2).length + 28 +
      (cString (echoBody data).1).length := by
    rw [httpResponse, snprintf, httpResponseTemplate, List.length_append, List.length_append,
      List.length_append, hintro, hend, decimal, List.length_map]
  simp only [responseFits, Bool.and_eq_true, decide_eq_true_eq]
  omega

/-- What passes the size guard is the whole text. -/
theorem response_eq_template (hfits : responseFits data = true) :
    response data = httpResponseTemplate (echoBody data).2 (echoBody data).1 := by
  simp only [responseFits, Bool.and_eq_true, decide_eq_true_eq] at hfits
  simp only [response, httpResponse, snprintf] at hfits ⊢
  rw [List.take_take, List.take_of_length_le (by omega)]

/-- `write_buf` up to `write_size` is the response. -/
theorem Conn.take_install (k : Conn n) (hfits : responseFits data = true) :
    (k.install data).writeBuf.take (k.install data).writeSize = response data := by
  rw [Conn.install_writeBuf, Conn.install_writeSize, ← length_response_of_fits hfits,
    List.take_left]

/-- The installed response to a chunk is well framed when its body was not cut. -/
theorem framed_take_install_iff (k : Conn n) (hlen : data.length ≤ bufferSize) :
    Framed ((k.install data).writeBuf.take (k.install data).writeSize) ↔
      (cString data).length ≤ 1017 := by
  have hfits := responseFits_of_length_le hlen
  rw [k.take_install hfits, response_eq_template hfits, framed_template_iff, echoBody_snd,
    length_echoBody]
  omega

/-- The response to every chunk that `handle_read` can turn into a task passes the size guard of
`process_request`, and what is installed is well framed exactly when the chunk has at most 1017
bytes before its first NUL. -/
theorem framed_install_iff (k : Conn n) (hlen : data.length ≤ bufferSize) :
    responseFits data = true ∧
      (Framed ((k.install data).writeBuf.take (k.install data).writeSize) ↔
        (cString data).length ≤ 1017) :=
  ⟨responseFits_of_length_le hlen, framed_take_install_iff k hlen⟩

/-- The response to the bytes `hi`. -/
theorem framed_install_iff_hi :
    Framed (((Conn.create 10 0 (0 : Fin 1)).install [104, 105]).writeBuf.take
      ((Conn.create 10 0 (0 : Fin 1)).install [104, 105]).writeSize) :=
  (framed_install_iff (Conn.create 10 0 (0 : Fin 1)) (by decide)).2.mpr (by decide)

/-- The response to 1018 bytes declares 1024 bytes and holds 1023. -/
theorem not_framed_install :
    (List.replicate 1018 (65 : UInt8)).length ≤ bufferSize ∧
      ¬Framed (((Conn.create 10 0 (0 : Fin 1)).install (List.replicate 1018 65)).writeBuf.take
        ((Conn.create 10 0 (0 : Fin 1)).install (List.replicate 1018 65)).writeSize) := by
  have hlen : (List.replicate 1018 (65 : UInt8)).length ≤ bufferSize := by
    rw [List.length_replicate, bufferSize]
    omega
  have hwhole : cString (List.replicate 1018 65) = List.replicate 1018 65 := by
    rw [cString_eq_self_iff]
    exact fun hmem => absurd (List.eq_of_mem_replicate hmem) (by decide)
  refine ⟨hlen, fun hframed => ?_⟩
  have hle := (framed_take_install_iff _ hlen).mp hframed
  rw [hwhole, List.length_replicate] at hle
  omega

end install

end DeepInIo.AdvancedServer
