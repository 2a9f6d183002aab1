import Libjaypea.HttpApi

/-!
# The HTTP redirecter

The server on the HTTP port of jph2 answers every request with a redirection to
HTTPS.  The location is the host name followed by the target of the request as
it came, which cannot end the header but can name another host.  A client that
takes a line feed for the end of a line misses the last two bytes of the page.
-/

namespace Libjaypea

namespace Redirection

/-- `get_redirection_html`: the page. -/
def responseBody (hostname : Bytes) : Bytes :=
  bytes "<!doctype html><html>\n<head>\n<title>301 Moved Permanently</title>\n</head>\n<body>\n" ++
    bytes "<h1>301 Moved Permanently</h1>\n" ++
    bytes "<p>This page has permanently moved to <a href=\"https://" ++ hostname ++
    bytes "\">https://" ++ hostname ++ bytes "</a>.</p>\n</body>\n</html>"

def getRedirectionHtml (hostname : Bytes) : Bytes :=
  bytes "HTTP/1.1 301 Moved Permanently\n" ++ bytes "Location: https://" ++ hostname ++
    bytes "\n" ++ bytes "Accept-Ranges: bytes\n" ++ bytes "Content-Type: text/html\n" ++
    bytes "Content-Length: " ++ HttpApi.toString (responseBody hostname).length ++ bytes "\n" ++
    bytes "\r\n\r\n" ++ responseBody hostname

/-- The loop of `on_read` over the request, from a state on: what is appended to `url`. -/
def scanTarget : Nat → Bytes → Bytes
  | _, [] => []
  | state, byte :: rest =>
      if byte = 0 then []
      else if state = 2 then
        if byte = ch '\r' ∨ byte = ch '\n' ∨ byte = ch ' ' then []
        else byte :: scanTarget 2 rest
      else if byte = ch ' ' then scanTarget 2 rest
      else scanTarget state rest

def target (data : Bytes) : Bytes :=
  scanTarget 1 data

/-- What `on_read` sends. -/
def onRead (hostname data : Bytes) : Bytes :=
  getRedirectionHtml (hostname ++ target data)

/-! ## What a client receives -/

/-- A line without the carriage return at its end. -/
def trimLine (line : Bytes) : Bytes :=
  if line.getLast? = some (ch '\r') then line.dropLast else line

/-- The lines of the head up to the empty one, and what follows them, where a line
has been read as far as `line`. -/
def receiveFrom (line : Bytes) : Bytes → List Bytes × Bytes
  | [] => ([line], [])
  | byte :: rest =>
      if byte = ch '\n' then
        if trimLine line = [] then ([], rest)
        else (trimLine line :: (receiveFrom [] rest).1, (receiveFrom [] rest).2)
      else receiveFrom (line ++ [byte]) rest

def receive (response : Bytes) : List Bytes × Bytes :=
  receiveFrom [] response

/-- The part of a URL behind the scheme that names the host, with its port. -/
def authority (url : Bytes) : Bytes :=
  url.takeWhile fun byte => byte ∉ bytes "/?#"

/-- A host name as it is configured. -/
def Host (hostname : Bytes) : Prop :=
  ∀ byte ∈ hostname, byte ∉ bytes "\r\n/?#"

section Lines

theorem receiveFrom_append {text : Bytes} (inside : ch '\n' ∉ text) (line rest : Bytes) :
    receiveFrom line (text ++ ch '\n' :: rest) =
      if trimLine (line ++ text) = [] then ([], rest)
      else (trimLine (line ++ text) :: (receive rest).1, (receive rest).2) := by
  induction text generalizing line with
  | nil =>
      rw [List.nil_append, receiveFrom, if_pos rfl, List.append_nil]
      rfl
  | cons byte text ih =>
      rw [List.mem_cons, not_or] at inside
      rw [List.cons_append, receiveFrom, if_neg (Ne.symm inside.1), ih inside.2,
        List.append_assoc, List.singleton_append]

theorem trimLine_of_notMem {line : Bytes} (inside : ch '\r' ∉ line) : trimLine line = line := by
  rw [trimLine, if_neg]
  exact fun last => inside (List.mem_of_getLast? last)

/-- A header. -/
theorem receive_line {text : Bytes} (nonempty : text ≠ [])
    (inside : ∀ byte ∈ text, byte ∉ bytes "\r\n") (rest : Bytes) :
    receive (text ++ ch '\n' :: rest) = (text :: (receive rest).1, (receive rest).2) := by
  have feed : ch '\n' ∉ text := fun member => inside _ member (by decide)
  have carriage : ch '\r' ∉ text := fun member => inside _ member (by decide)
  rw [receive, receiveFrom_append feed, List.nil_append, trimLine_of_notMem carriage,
    if_neg nonempty]

theorem receive_empty (rest : Bytes) : receive (bytes "\r\n" ++ rest) = ([], rest) := by
  change receiveFrom [] ([ch '\r'] ++ ch '\n' :: rest) = _
  rw [receiveFrom_append (by decide)]
  exact if_pos (by decide)

end Lines

section Target

/-- The target ends before anything that ends a line. -/
theorem scanTarget_clean (state : Nat) (data : Bytes) :
    ∀ byte ∈ scanTarget state data, byte ∉ bytes "\r\n " ∧ byte ≠ 0 := by
  induction data generalizing state with
  | nil => simp [scanTarget]
  | cons first rest ih =>
      rw [scanTarget]
      split
      · simp
      · rename_i present
        split
        · split
          · simp
          · rename_i inside
            intro byte member
            rcases List.mem_cons.mp member with rfl | later
            · refine ⟨?_, present⟩
              simpa [bytes, ch] using inside
            · exact ih 2 byte later
        · split
          · exact ih 2
          · exact ih state

theorem scanTarget_text {text : Bytes} (inside : ∀ byte ∈ text, byte ∉ bytes "\r\n " ∧ byte ≠ 0)
    {final : UInt8} (ends : final ∈ bytes "\r\n ") (rest : Bytes) :
    scanTarget 2 (text ++ final :: rest) = text := by
  induction text with
  | nil =>
      have ends : final = ch '\r' ∨ final = ch '\n' ∨ final = ch ' ' := by
        simpa [bytes] using ends
      rw [List.nil_append, scanTarget, if_pos rfl, if_pos ends, ite_self]
  | cons byte text ih =>
      obtain ⟨⟨inner, present⟩, later⟩ := List.forall_mem_cons.mp inside
      have inner : ¬ (byte = ch '\r' ∨ byte = ch '\n' ∨ byte = ch ' ') := by
        simpa [bytes] using inner
      rw [List.cons_append, scanTarget, if_neg present, if_pos rfl, if_neg inner, ih later]

/-- What stands between the first two spaces of a request is its target. -/
theorem target_request {method text : Bytes} (word : ∀ byte ∈ method, byte ≠ ch ' ' ∧ byte ≠ 0)
    (inside : ∀ byte ∈ text, byte ∉ bytes "\r\n " ∧ byte ≠ 0) {final : UInt8}
    (ends : final ∈ bytes "\r\n ") (rest : Bytes) :
    target (method ++ ch ' ' :: (text ++ final :: rest)) = text := by
  rw [target]
  induction method with
  | nil =>
      rw [List.nil_append, scanTarget, if_neg (by decide), if_neg (by decide), if_pos rfl]
      exact scanTarget_text inside ends rest
  | cons byte method ih =>
      obtain ⟨⟨noSpace, present⟩, later⟩ := List.forall_mem_cons.mp word
      rw [List.cons_append, scanTarget, if_neg present, if_neg (by decide), if_neg noSpace]
      exact ih later

end Target

section Response

variable {hostname : Bytes}

theorem toString_inside (number : Nat) :
    HttpApi.toString number ≠ [] ∧ ∀ byte ∈ HttpApi.toString number, byte ∉ bytes "\r\n" := by
  have digits (digit : Char) (isDigit : digit.isDigit = true) : ch digit ∉ bytes "\r\n" := by
    simp only [Char.isDigit, Bool.and_eq_true, decide_eq_true_eq] at isDigit
    have small : digit.toNat < 256 := by
      have le : digit.toNat ≤ '9'.toNat := isDigit.2
      exact Nat.lt_of_le_of_lt le (by decide)
    have apart (special : Char) (low : special.toNat < '0'.toNat) : ch digit ≠ ch special := by
      rw [Ne, ch_eq_ch_iff small (Nat.lt_trans low (by decide))]
      rintro rfl
      have ge : '0'.toNat ≤ digit.toNat := isDigit.1
      exact absurd ge (Nat.not_le_of_lt low)
    have carriage := apart '\r' (by decide)
    have feed := apart '\n' (by decide)
    simp [bytes, carriage, feed]
  rw [HttpApi.toString, bytes, Nat.toList_repr]
  refine ⟨?_, ?_⟩
  · simp [Nat.toDigits_ne_nil]
  · intro byte member
    obtain ⟨digit, isOne, rfl⟩ := List.mem_map.mp member
    exact digits digit (Nat.isDigit_of_mem_toDigits (by decide) (by decide) isOne)

/-- Nothing in a redirection but the lines of its own. -/
theorem receive_getRedirectionHtml {url : Bytes} (clean : ∀ byte ∈ url, byte ∉ bytes "\r\n") :
    receive (getRedirectionHtml url) =
      ([bytes "HTTP/1.1 301 Moved Permanently", bytes "Location: https://" ++ url,
        bytes "Accept-Ranges: bytes", bytes "Content-Type: text/html",
        bytes "Content-Length: " ++ HttpApi.toString (responseBody url).length],
        bytes "\r\n" ++ responseBody url) := by
  have shape : getRedirectionHtml url =
      bytes "HTTP/1.1 301 Moved Permanently" ++ ch '\n' ::
        ((bytes "Location: https://" ++ url) ++ ch '\n' ::
          (bytes "Accept-Ranges: bytes" ++ ch '\n' ::
            (bytes "Content-Type: text/html" ++ ch '\n' ::
              ((bytes "Content-Length: " ++ HttpApi.toString (responseBody url).length) ++
                ch '\n' :: (bytes "\r\n" ++ (bytes "\r\n" ++ responseBody url)))))) := by
    simp [getRedirectionHtml, bytes]
  have scheme : ∀ byte ∈ bytes "Location: https://", byte ∉ bytes "\r\n" :=
    forall_mem_of_all (by decide)
  have location : ∀ byte ∈ bytes "Location: https://" ++ url, byte ∉ bytes "\r\n" :=
    List.forall_mem_append.mpr ⟨scheme, clean⟩
  have length : ∀ byte ∈ bytes "Content-Length: " ++ HttpApi.toString (responseBody url).length,
      byte ∉ bytes "\r\n" :=
    List.forall_mem_append.mpr ⟨forall_mem_of_all (by decide), (toString_inside _).2⟩
  rw [shape, receive_line (by decide) (forall_mem_of_all (by decide)),
    receive_line (by simp [bytes]) location,
    receive_line (by decide) (forall_mem_of_all (by decide)),
    receive_line (by decide) (forall_mem_of_all (by decide)),
    receive_line (by simp [bytes]) length, receive_empty]

/-- The host is that of the configuration where the target does not go on with its name. -/
theorem authority_eq_iff (host : ∀ byte ∈ hostname, byte ∉ bytes "/?#") (text : Bytes) :
    authority (hostname ++ text) = hostname ↔
      text = [] ∨ ∃ first ∈ bytes "/?#", ∃ rest, text = first :: rest := by
  have before : authority (hostname ++ text) = hostname ++ authority text := by
    rw [authority, List.takeWhile_append_of_pos]
    · rfl
    · simpa using host
  rw [before, List.append_right_eq_self]
  cases text with
  | nil => simp [authority]
  | cons first rest =>
      by_cases ends : first ∈ bytes "/?#"
      · simp [authority, ends]
      · simp [authority, ends]

/-- What becomes of a request. -/
structure Redirects (hostname data : Bytes) : Prop where
  /-- No request adds a header, or another location. -/
  received : receive (onRead hostname data) =
    ([bytes "HTTP/1.1 301 Moved Permanently", bytes "Location: https://" ++ hostname ++ target data,
      bytes "Accept-Ranges: bytes", bytes "Content-Type: text/html",
      bytes "Content-Length: " ++ HttpApi.toString (responseBody (hostname ++ target data)).length],
      bytes "\r\n" ++ responseBody (hostname ++ target data))
  /-- The location leads to another host where the target goes on with its name. -/
  host : authority (hostname ++ target data) = hostname ↔
    target data = [] ∨ ∃ first ∈ bytes "/?#", ∃ rest, target data = first :: rest
  /-- The target is what stands behind the first space of the request. -/
  kept : ∀ method text rest final, data = method ++ ch ' ' :: (text ++ final :: rest) →
    (∀ byte ∈ method, byte ≠ ch ' ' ∧ byte ≠ 0) →
    (∀ byte ∈ text, byte ∉ bytes "\r\n " ∧ byte ≠ 0) → final ∈ bytes "\r\n " →
    target data = text
  /-- As many bytes as are announced end in front of the last two. -/
  cut : (receive (onRead hostname data)).2.take (responseBody (hostname ++ target data)).length =
    bytes "\r\n" ++ (responseBody (hostname ++ target data)).take
      ((responseBody (hostname ++ target data)).length - 2)

/-- Whatever is sent to the HTTP port. -/
theorem redirects (host : Host hostname) (data : Bytes) : Redirects hostname data := by
  have lines : ∀ byte ∈ bytes "\r\n", byte ∈ bytes "\r\n/?#" ∧ byte ∈ bytes "\r\n " :=
    forall_mem_of_all (by decide)
  have clean : ∀ byte ∈ hostname ++ target data, byte ∉ bytes "\r\n" := by
    refine List.forall_mem_append.mpr ⟨?_, ?_⟩
    · exact fun byte member ends => host byte member (lines byte ends).1
    · exact fun byte member ends => (scanTarget_clean 1 data byte member).1 (lines byte ends).2
  have path : ∀ byte ∈ bytes "/?#", byte ∈ bytes "\r\n/?#" := forall_mem_of_all (by decide)
  have received := receive_getRedirectionHtml clean
  rw [← List.append_assoc] at received
  refine ⟨received, authority_eq_iff ?_ _, ?_, ?_⟩
  · exact fun byte member ends => host byte member (path byte ends)
  · rintro method text rest final rfl word inside ends
    exact target_request word inside ends rest
  · have long : 2 ≤ (responseBody (hostname ++ target data)).length := by
      rw [responseBody, List.length_append]
      exact Nat.le_add_left_of_le (by decide)
    rw [onRead, received, List.take_append, List.take_of_length_le]
    · rfl
    · exact long

theorem redirects_elsewhere :
    Redirects (bytes "jph2.net") (bytes "GET .example/ HTTP/1.1\r\n\r\n") ∧
      authority (bytes "jph2.net" ++ target (bytes "GET .example/ HTTP/1.1\r\n\r\n")) =
        bytes "jph2.net.example" :=
  ⟨redirects (forall_mem_of_all (by decide)) _, by decide⟩

end Response

end Redirection

end Libjaypea
