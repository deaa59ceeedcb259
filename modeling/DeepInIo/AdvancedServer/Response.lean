import DeepInIo.AdvancedServer.Basic

/-!
# The response of `process_request`

`process_request` formats an echo body into a buffer of 1024 bytes and then the HTTP response into
one of `BUFFER_SIZE` bytes, both with `snprintf`, which stores a truncated text but returns the
length the full text would have had.
-/

namespace DeepInIo.AdvancedServer

/-- The bytes of an ASCII literal. -/
def ascii (s : String) : List UInt8 :=
  s.toList.map fun c => c.toNat.toUInt8

/-- The bytes a `%s` conversion copies: everything before the first NUL. -/
def cString (data : List UInt8) : List UInt8 :=
  data.takeWhile fun b => b != 0

/-- `%d` of a non-negative number. -/
def decimal (k : ℕ) : List UInt8 :=
  (Nat.toDigits 10 k).map fun c => c.toNat.toUInt8

/-- `snprintf`: the text stored in a buffer of `size` bytes (without its NUL) and the returned
length, which is that of the untruncated text. -/
def snprintf (size : ℕ) (text : List UInt8) : List UInt8 × ℕ :=
  (text.take (size - 1), text.length)

/-- `body` and `body_len`: `"Echo: %.*s"` of the request. -/
def echoBody (data : List UInt8) : List UInt8 × ℕ :=
  snprintf 1024 (ascii "Echo: " ++ cString data)

/-- `http_response_template` applied to a length and a body. -/
def httpResponseTemplate (bodyLen : ℕ) (body : List UInt8) : List UInt8 :=
  ascii "HTTP/1.1 200 OK\r\nContent-Type: text/plain\r\nContent-Length: " ++ decimal bodyLen ++
    ascii "\r\nConnection: keep-alive\r\n\r\n" ++ cString body

/-- `response` and `response_len` as `process_request` computes them for a chunk of data. -/
def httpResponse (data : List UInt8) : List UInt8 × ℕ :=
  snprintf bufferSize (httpResponseTemplate (echoBody data).2 (echoBody data).1)

/-- The bytes of the response `process_request` builds from a chunk. -/
def response (data : List UInt8) : List UInt8 :=
  (httpResponse data).1.take (httpResponse data).2

/-- The size guard of `process_request`: `response_len > 0 && response_len < BUFFER_SIZE`. -/
def responseFits (data : List UInt8) : Bool :=
  0 < (httpResponse data).2 && (httpResponse data).2 < bufferSize

/-- What the size guard accepts is stored without truncation. -/
theorem length_response_of_fits {data : List UInt8} (h : responseFits data = true) :
    (response data).length = (httpResponse data).2 := by
  simp only [responseFits, Bool.and_eq_true, decide_eq_true_eq] at h
  simp only [response, httpResponse, snprintf, List.length_take] at h ⊢
  omega

end DeepInIo.AdvancedServer
