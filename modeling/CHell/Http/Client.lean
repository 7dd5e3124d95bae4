import CHell.Http.RequestRuns

/-!
# One client of the web server, `network/http.c`

| here | there |
| --- | --- |
| `handleClient` | `handle_client` (:70-109) |
| `reply`        | the part of it behind the call of `parse_http` (:89-108) |

The answers of the kernel and of `parse_http` are parameters: what `recv` wrote, if it did not fail, what
`parse_http` makes of the buffer, and what `send` returns for a text. Standard output is left out.
-/

namespace CHell.Http

open CInt Memory Token Traced

inductive ClientEvent
  | recv
  | perror (text : String)
  /-- `buffer[i] = '\0'` -/
  | terminate (i : Int)
  | parse
  /-- `fprintf(stderr, "parse error: %d\n", req_type)` -/
  | parseError (req_type : Int)
  | send (text : String)
  /-- `close(connfd)` -/
  | close
deriving DecidableEq

/-- `char buffer[MAX_BUF_LEN+1]` -/
abbrev Buffer := { m : Mem // m.length = MAX_BUF_LEN + 1 }

/-- What `recv` wrote; it is asked for `MAX_BUF_LEN` bytes. -/
abbrev Received := { bs : List UInt8 // bs.length ≤ MAX_BUF_LEN }

def sendOk : String := "HTTP/1.0 200 OK\r\nserver: Humanz\r\ncontent-type: text/html; charset=UTF-8\r\n\n"
def sendmsg : String := "<html><head><title>Humanz</title></head><body>From C-world,hello humanz</body></html>"

def recvResult (recv : Option Received) : Int :=
  match recv with
  | none => -1
  | some bs => bs.1.length

def afterRecv (buffer : Buffer) (recv : Option Received) : Mem :=
  match recv with
  | none => buffer.1
  | some bs => bs.1 ++ buffer.1.drop bs.1.length

def sendPage (sent : String → Int) : Traced ClientEvent Int := do
  emit (.send sendmsg)
  if sent sendmsg < 0 then emit (.perror "send error") else pure ⟨⟩
  emit .close
  pure 0

def reply (req_type : Int) (sent : String → Int) : Traced ClientEvent Int := do
  if req_type = 0 then do
    emit (.send sendOk)
    sendPage sent
  else if req_type = 1 then do
    emit (.send sendOk)
    sendPage sent
  else do
    emit (.parseError req_type)
    emit .close
    pure (-1)

def handleClient (buffer : Buffer) (recv : Option Received) (parse : Mem → Int → Option Int) (sent : String → Int) :
    Traced ClientEvent Int := do
  emit .recv
  let n := recvResult recv
  -- there is no `return` in this branch
  if n ≤ 0 then do
    emit (.perror "recv() errr")
    emit .close
  else pure ⟨⟩
  emit (.terminate n)
  let buffer ← lift (if 0 ≤ n then store (afterRecv buffer recv) n.toNat [0] else none)
  emit .parse
  let req_type ← lift (parse buffer n)
  reply req_type sent

variable {buffer : Buffer} {bs : Received} {parse : Mem → Int → Option Int} {sent : String → Int} {v : Int}

theorem sendPage_eq (sent : String → Int) :
    sendPage sent =
      ⟨.send sendmsg :: (if sent sendmsg < 0 then [.perror "send error"] else []) ++ [.close], some 0⟩ := by
  by_cases h : sent sendmsg < 0 <;> simp [sendPage, h]

/-- A text is sent only if the request was parsed, and closing the socket comes last. -/
theorem reply_eq (v : Int) (sent : String → Int) :
    reply v sent =
      if v = 0 ∨ v = 1 then
        ⟨[.send sendOk, .send sendmsg] ++ (if sent sendmsg < 0 then [.perror "send error"] else []) ++ [.close], some 0⟩
      else ⟨[.parseError v, .close], some (-1)⟩ := by
  by_cases h0 : v = 0
  · simp [reply, h0, sendPage_eq]
  · by_cases h1 : v = 1 <;> simp [reply, h0, h1, sendPage_eq]

/-- What `parse_http` gets: the request, its NUL, and what was in the buffer behind it. -/
def terminated (buffer : Buffer) (bs : List UInt8) : Mem := bs ++ 0 :: buffer.1.drop (bs.length + 1)

theorem store_afterRecv (buffer : Buffer) (bs : Received) :
    store (afterRecv buffer (some bs)) bs.1.length [0] = some (terminated buffer bs.1) := by
  have hroom : [(0 : UInt8)].length ≤ (buffer.1.drop bs.1.length).length := by
    have hle := bs.2
    rw [List.length_drop, buffer.2, List.length_singleton]
    omega
  rw [afterRecv, store_append _ _ hroom, List.drop_drop, List.append_assoc]
  rfl

/-- The run after a `recv` that did not fail. An empty one closes the socket and goes on. -/
theorem handleClient_got (hv : parse (terminated buffer bs.1) bs.1.length = some v) :
    handleClient buffer (some bs) parse sent =
      ⟨.recv :: (if bs.1 = [] then [.perror "recv() errr", .close] else []) ++
        .terminate bs.1.length :: .parse :: (reply v sent).events, (reply v sent).value⟩ := by
  have hn0 : 0 ≤ recvResult (some bs) := Int.natCast_nonneg _
  have hn : recvResult (some bs) ≤ 0 ↔ bs.1 = [] := by
    simp only [recvResult, ← List.length_eq_zero_iff]
    omega
  have hstore : store (afterRecv buffer (some bs)) (recvResult (some bs)).toNat [0] = some (terminated buffer bs.1) :=
    store_afterRecv buffer bs
  have hparse : parse (terminated buffer bs.1) (recvResult (some bs)) = some v := hv
  by_cases hempty : bs.1 = []
  · simp only [handleClient, if_pos (hn.2 hempty), if_pos hn0, if_pos hempty, hstore, emit_bind, lift_some_bind, hparse]
    rfl
  · simp only [handleClient, if_neg (mt hn.1 hempty), if_pos hn0, if_neg hempty, hstore, emit_bind, lift_some_bind,
      hparse]
    rfl

/-! ## The socket -/

/-- The connection is used only while it is good, and closed once. -/
structure Handles (recv : Option Received) (run : Traced ClientEvent Int) : Prop where
  returns : ∃ v, run.value = some v
  closes : run.events.count .close = 1
  /-- After a `recv` that failed or got nothing there is nothing to parse or to answer. -/
  idle : recvResult recv ≤ 0 → ∀ e ∈ run.events, e ≠ .parse ∧ ∀ t, e ≠ .send t
  after : ∀ e ∈ run.events.dropWhile (· ≠ .close), e ≠ .parse ∧ ∀ t, e ≠ .send t
  terminates : ∀ i : Int, .terminate i ∈ run.events → 0 ≤ i ∧ i ≤ MAX_BUF_LEN

theorem reply_closes (v : Int) (sent : String → Int) :
    ∃ front v', reply v sent = ⟨front ++ [.close], some v'⟩ ∧ .close ∉ front ∧ ∀ i : Int, .terminate i ∉ front := by
  rw [reply_eq]
  split
  · refine ⟨_, 0, rfl, ?_⟩
    split <;> simp
  · exact ⟨[.parseError v], -1, rfl, by simp⟩

theorem reply_handles {recv : Option Received} {n : Nat} (hrecv : recvResult recv = n) (hpos : 0 < n)
    (hle : n ≤ MAX_BUF_LEN) (v : Int) (sent : String → Int) :
    Handles recv ⟨.recv :: .terminate n :: .parse :: (reply v sent).events, (reply v sent).value⟩ := by
  obtain ⟨front, v', hreply, hclose, hterm⟩ := reply_closes v sent
  rw [hreply]
  refine ⟨⟨v', rfl⟩, ?_, ?_, ?_, ?_⟩
  · simp [List.count_eq_zero.2 hclose]
  · intro hn
    omega
  · have hopen : ∀ e ∈ front, (!decide (e = ClientEvent.close)) = true := by
      intro e he
      rw [Bool.not_eq_true', decide_eq_false_iff_not]
      rintro rfl
      exact hclose he
    simp [List.dropWhile_append_of_pos hopen]
  · intro i hi
    obtain rfl : i = n := by simpa [hterm i] using hi
    constructor <;> omega

/-- **The socket is handled right if `recv` got something**, and only then. -/
theorem handleClient_handles_iff (buffer : Buffer) (recv : Option Received) (result : Int) (sent : String → Int) :
    Handles recv (handleClient buffer recv (fun _ _ => some result) sent) ↔ 1 ≤ recvResult recv := by
  constructor
  · intro h
    by_contra hn
    have hidle := h.idle (by omega)
    cases recv with
    | none =>
      obtain ⟨v, hv⟩ := h.returns
      cases hv
    | some bs =>
      rw [handleClient_got rfl] at hidle
      exact (hidle .parse (by simp)).1 rfl
  · intro hn
    cases recv with
    | none => cases hn
    | some bs =>
      have hpos : 0 < bs.1.length := by
        simp only [recvResult] at hn
        omega
      rw [handleClient_got rfl, if_neg (List.length_pos_iff.1 hpos)]
      exact reply_handles rfl hpos bs.2 result sent

def zeroBuffer : Buffer := ⟨List.replicate (MAX_BUF_LEN + 1) 0, List.length_replicate⟩

/-- A client that hangs up without a request: the socket is closed twice. -/
theorem handleClient_hang_up :
    ¬ ∀ (buffer : Buffer) (recv : Option Received) (result : Int) (sent : String → Int),
      Handles recv (handleClient buffer recv (fun _ _ => some result) sent) := by
  intro hclaim
  have hcloses := (hclaim zeroBuffer (some ⟨[], Nat.zero_le _⟩) (-2)
    fun _ => 0).closes
  rw [handleClient_got rfl] at hcloses
  simp [reply_eq] at hcloses

/-! ## The request -/

def MAX_PATH_LEN : Nat := 800

/-- Both texts are sent, and 0 is returned. -/
def Answers (run : Traced ClientEvent Int) : Prop :=
  run.value = some 0 ∧ .send sendOk ∈ run.events ∧ .send sendmsg ∈ run.events

theorem requestCode_get {path : List UInt8} (hpath : ∀ b ∈ path, b ≠ SPACE ∧ b ≠ 0) (rest : List UInt8) :
    requestCode (GET ++ SPACE :: (path ++ SPACE :: rest)) 0 =
      if path.length < MAX_HTTPSTR_LEN then some 1 else some (-7) := by
  have hget : token text (GET ++ SPACE :: (path ++ SPACE :: rest)) 0 = GET :=
    token_eq (by rfl) (List.all_eq_true.1 rfl) rfl
  have hpath : token text (GET ++ SPACE :: (path ++ SPACE :: rest)) 4 = path :=
    token_eq (by rfl) (fun b hb => text_iff.2 (hpath b hb)) rfl
  have hend : (GET ++ SPACE :: (path ++ SPACE :: rest))[4 + path.length]? = some SPACE := by
    rw [← List.getElem?_drop]
    simp [GET]
  have hspace : (GET ++ SPACE :: (path ++ SPACE :: rest))[0 + GET.length]? = some SPACE := rfl
  have hindex : 0 + GET.length + 1 = 4 := rfl
  rw [requestCode_of_stop hget (by decide), hspace, Option.bind_some, if_neg (by decide), if_neg (by decide), hindex]
  by_cases hshort : path.length < MAX_HTTPSTR_LEN
  · rw [if_pos hshort, pathCode_of_stop hpath hshort, hend]
    rfl
  · rw [if_neg hshort, pathCode_long (hpath.symm ▸ Nat.le_of_not_lt hshort)]

/-- `"GET "`, the path, a space and the version. -/
def getRequest (path version : List UInt8) : List UInt8 := GET ++ SPACE :: (path ++ SPACE :: version)

theorem parseHttp_get {path version : List UInt8} (hpath : ∀ b ∈ path, b ≠ SPACE ∧ b ≠ 0)
    (hfit : (getRequest path version).length ≤ MAX_BUF_LEN) (buffer : Buffer) (frame : Frame) (hi : frame.i = 0) :
    (parseHttp (some (terminated buffer (getRequest path version))) (getRequest path version).length frame).value =
      if path.length < MAX_HTTPSTR_LEN then some 1 else some (-7) := by
  have hnul : (terminated buffer (getRequest path version))[(getRequest path version).length]? = some 0 := by
    simp [terminated]
  have hlen : ((terminated buffer (getRequest path version)).length : Int) ≤ INT_MAX := by
    simp only [terminated, List.length_append, List.length_cons, List.length_drop, buffer.2, MAX_BUF_LEN,
      INT_MAX] at hfit ⊢
    omega
  have hsplit : terminated buffer (getRequest path version) =
      GET ++ SPACE :: (path ++ SPACE :: (version ++ 0 :: buffer.1.drop ((getRequest path version).length + 1))) := by
    simp [terminated, getRequest]
  rw [parseHttp_value ⟨⟨_, rfl, hnul⟩, hlen⟩ hi, hsplit, requestCode_get hpath]

/-- **A path is answered if it fits the array for the protocol version**, which is what it is copied to. -/
theorem path_answered_iff (path version : List UInt8) (hpath : ∀ b ∈ path, b ≠ SPACE ∧ b ≠ 0)
    (hfit : (getRequest path version).length ≤ MAX_BUF_LEN) (buffer : Buffer) (frame : Frame) (hi : frame.i = 0)
    (sent : String → Int) :
    ((parseHttp (some (terminated buffer (getRequest path version))) (getRequest path version).length frame).value =
        some 1 ∧
      Answers (handleClient buffer (some ⟨getRequest path version, hfit⟩)
        (fun b n => (parseHttp (some b) n frame).value) sent)) ↔
    path.length ≤ 11 := by
  have hvalue := parseHttp_get hpath hfit buffer frame hi
  have hlimit : path.length < MAX_HTTPSTR_LEN ↔ path.length ≤ 11 := Nat.lt_succ_iff
  constructor
  · rintro ⟨hone, -⟩
    rw [hvalue] at hone
    by_contra hlong
    rw [if_neg (mt hlimit.1 hlong)] at hone
    cases hone
  · intro hshort
    rw [if_pos (hlimit.2 hshort)] at hvalue
    refine ⟨hvalue, ?_⟩
    rw [handleClient_got hvalue, reply_eq]
    simp [Answers]

/-- `"/favicon.ico"` -/
def favicon : List UInt8 := [47, 102, 97, 118, 105, 99, 111, 110, 46, 105, 99, 111]

/-- `"HTTP/1.0"` -/
def http10 : List UInt8 := [72, 84, 84, 80, 47, 49, 46, 48]

theorem path_answered_root :
    ((parseHttp (some (terminated zeroBuffer (getRequest [47] http10))) (getRequest [47] http10).length
        (frameFrom 0 (by decide))).value = some 1 ∧
      Answers (handleClient zeroBuffer (some ⟨getRequest [47] http10, by decide⟩)
        (fun b n => (parseHttp (some b) n (frameFrom 0 (by decide))).value) fun _ => 0)) ↔ [47].length ≤ 11 :=
  path_answered_iff [47] http10 (text_of_all rfl) (by decide) zeroBuffer (frameFrom 0 (by decide)) rfl fun _ => 0

/-- `"GET /favicon.ico HTTP/1.0"` is an error. -/
theorem favicon_not_answered :
    ¬ ∀ (path version : List UInt8) (_ : 1 ≤ path.length) (_ : path.length ≤ MAX_PATH_LEN - 1)
      (_ : ∀ b ∈ path, b ≠ SPACE ∧ b ≠ 0) (hfit : (getRequest path version).length ≤ MAX_BUF_LEN) (buffer : Buffer)
      (frame : Frame) (_ : frame.i = 0) (sent : String → Int),
      (parseHttp (some (terminated buffer (getRequest path version))) (getRequest path version).length frame).value =
          some 1 ∧
        Answers (handleClient buffer (some ⟨getRequest path version, hfit⟩)
          (fun b n => (parseHttp (some b) n frame).value) sent) := by
  intro hclaim
  have hpath : ∀ b ∈ favicon, b ≠ SPACE ∧ b ≠ 0 := text_of_all rfl
  have hfit : (getRequest favicon http10).length ≤ MAX_BUF_LEN := by decide
  have hone := (hclaim favicon http10 (by decide) (by decide) hpath hfit zeroBuffer (frameFrom 0 (by decide)) rfl
    fun _ => 0).1
  have hvalue := parseHttp_get hpath hfit zeroBuffer (frameFrom 0 (by decide)) rfl
  cases hvalue.symm.trans hone

end CHell.Http
