import IoEdgeHub.CStrings
import IoEdgeHub.SlotPool
import IoEdgeHub.WsUpgrade

/-!
The replies of the two upgrade workers (`fw_reply` of `fw/fw_udp.c` and
`fw_reply_from_worker` of `web/ws.c`). Either fills one of two slots, used in turn,
and posts a callback with a pointer to it to the TCP/IP thread, which sends what it
finds there when the callback's turn comes. Nobody waits for a slot to be free: every
reply arrives as it was built as long as fewer than two earlier ones are outstanding
when a slot is taken (`replies_delivered`), and `reply_overwritten` is what happens
otherwise.
-/
namespace IoEdgeHub.Replies
open IoEdgeHub.Nor IoEdgeHub.FwUpg IoEdgeHub.FwUdp IoEdgeHub.WsUpgrade IoEdgeHub.CStrings IoEdgeHub.SlotPool
open IoEdgeHub.Calls IoEdgeHub.Machine

def TCPIP_MBOX_SIZE : Nat := 8

/-- An element of `replies`; of `buf` only the first `len` bytes are looked at. -/
structure FwReplySlot where
  addr : Nat
  port : Nat
  buf : List UInt8
  len : Nat
  deriving DecidableEq, Repr

/-- What `fw_send_reply_cb` has taken from the slot: the size of the buffer it allocated, the bytes it copied
    into it, and where it sends it. -/
structure Sending where
  len : Nat
  buf : List UInt8
  addr : Nat
  port : Nat
  deriving DecidableEq, Repr

/-- The assignments of `fw_reply`. -/
def fw_reply (r : FwReply) : List (FwReplySlot → FwReplySlot) :=
  [fun s => { s with addr := r.peer.addr }, fun s => { s with port := r.peer.port },
    fun s => { s with buf := r.buf ++ s.buf.drop r.buf.length }, fun s => { s with len := r.buf.length }]

/-- The accesses of `fw_send_reply_cb`: `pbuf_alloc`, `pbuf_take`, `udp_sendto`. -/
def fw_send_reply_cb : List (FwReplySlot → Sending → Sending) :=
  [fun s g => { g with len := s.len }, fun s g => { g with buf := s.buf.take s.len }, fun s g => { g with port := s.port },
    fun s g => { g with addr := s.addr }]

/-- The index is a byte, of which the low bit is taken. -/
def udp_pool : Shape FwReply FwReplySlot Sending := ⟨2, 256, TCPIP_MBOX_SIZE, fw_reply, fw_send_reply_cb, ⟨0, [], 0, 0⟩⟩

/-- A reply as its requester should get it. -/
def udp_sent (r : FwReply) : Sending := ⟨r.buf.length, r.buf, r.peer.addr, r.peer.port⟩

theorem udp_faithful (r : FwReply) (s : FwReplySlot) : seen udp_pool (written udp_pool r s) = udp_sent r := by
  have first : (r.buf ++ s.buf.drop r.buf.length).take r.buf.length = r.buf := List.take_left
  show (⟨r.buf.length, (r.buf ++ s.buf.drop r.buf.length).take r.buf.length, r.peer.addr, r.peer.port⟩ : Sending) = udp_sent r
  rw [first]
  rfl

def JSON_SIZE : Nat := 80

/-- What `ws_send_json` has taken from the slot: the length of the text, and that many bytes. -/
structure Text where
  len : Nat
  json : List UInt8
  deriving DecidableEq, Repr

/-- The byte that ends up at an index: `strncpy` fills up with zeros, and the last one is set to zero. -/
def json_byte (json : List UInt8) (i : Nat) : UInt8 := if i < JSON_SIZE - 1 then json.getD i 0 else 0

/-- `strncpy` and the terminator, byte by byte. -/
def fw_reply_from_worker (a : Answer) : List (Vector UInt8 80 → Vector UInt8 80) :=
  (List.range JSON_SIZE).map fun i buf => buf.setIfInBounds i (json_byte (ascii a.json) i)

/-- `strlen` and the copy into the frame. -/
def ws_fw_reply_cb : List (Vector UInt8 80 → Text → Text) :=
  [fun buf g => { g with len := (cstr buf.toList).length }, fun buf g => { g with json := buf.toList.take g.len }]

def ws_pool : Shape Answer (Vector UInt8 80) Text := ⟨2, 256, TCPIP_MBOX_SIZE, fw_reply_from_worker, ws_fw_reply_cb, ⟨0, []⟩⟩

/-- The text of a reply as it fits into a slot. -/
def ws_sent (a : Answer) : Text :=
  let json := cstr (clip JSON_SIZE (ascii a.json))
  ⟨json.length, json⟩

/-- The bytes are set one after the other. -/
theorem filled (json : List UInt8) (buf : Vector UInt8 80) {n : Nat} (inside : n ≤ 80) :
    ∀ j (bound : j < 80), (((List.range n).map fun i (buf : Vector UInt8 80) => buf.setIfInBounds i (json_byte json i)).foldl
      (fun buf w => w buf) buf)[j] = if j < n then json_byte json j else buf[j] := by
  induction n with
  | zero => intro j bound; rfl
  | succ n ih =>
    intro j bound
    rw [List.range_succ, List.map_append, List.foldl_append]
    simp only [List.map_cons, List.map_nil, List.foldl_cons, List.foldl_nil, Vector.getElem_setIfInBounds]
    rw [ih (by omega) j bound]
    split_ifs <;> first | rfl | omega | (subst_vars; rfl)

theorem written_bytes (a : Answer) (buf : Vector UInt8 80) :
    (written ws_pool a buf).toList = (List.range 80).map (json_byte (ascii a.json)) := by
  apply List.ext_getElem
  · simp
  · intro j left right
    have bound : j < 80 := by simpa using right
    rw [Vector.getElem_toList, List.getElem_map, List.getElem_range]
    exact (filled (ascii a.json) buf (Nat.le_refl 80) j bound).trans (if_pos bound)

/-- The text, and nothing but zeros behind it. -/
theorem json_bytes (json : List UInt8) :
    (List.range 80).map (json_byte json) = clip JSON_SIZE json ++ List.replicate (80 - (clip JSON_SIZE json).length) 0 := by
  have size : (clip JSON_SIZE json).length = min 79 json.length := by simp [clip, JSON_SIZE]
  apply List.ext_getElem
  · simp only [List.length_map, List.length_range, List.length_append, List.length_replicate, size]
    omega
  · intro j left right
    rw [List.getElem_map, List.getElem_range, json_byte]
    by_cases text : j < (clip JSON_SIZE json).length
    · have early : j < JSON_SIZE - 1 := by rw [size] at text; simp only [JSON_SIZE]; omega
      have inside : j < json.length := by omega
      have same : (clip JSON_SIZE json)[j] = json[j] := List.getElem_take
      rw [List.getElem_append_left text, same, if_pos early, List.getD_eq_getElem _ _ inside]
    · rw [List.getElem_append_right (by omega), List.getElem_replicate]
      split_ifs with early
      · have outside : json.length ≤ j := by rw [size] at text; simp only [JSON_SIZE] at early; omega
        rw [List.getD_eq_default _ _ outside]
      · rfl

theorem cstr_json (json : List UInt8) : cstr ((List.range 80).map (json_byte json)) = cstr (clip JSON_SIZE json) := by
  have size : (clip JSON_SIZE json).length ≤ 79 := by simp [clip, JSON_SIZE]
  obtain ⟨n, more⟩ : ∃ n, 80 - (clip JSON_SIZE json).length = n + 1 := ⟨79 - (clip JSON_SIZE json).length, by omega⟩
  have zeros : (List.replicate (n + 1) (0 : UInt8)).takeWhile (· ≠ 0) = [] := by
    rw [List.replicate_succ]
    rfl
  rw [json_bytes, more, cstr, cstr, List.takeWhile_append, zeros, List.append_nil]
  split_ifs with whole
  · exact ((List.takeWhile_prefix _).eq_of_length whole).symm
  · rfl

theorem seen_text (buf : Vector UInt8 80) :
    seen ws_pool buf = ⟨(cstr buf.toList).length, buf.toList.take (cstr buf.toList).length⟩ := rfl

theorem ws_faithful (a : Answer) (buf : Vector UInt8 80) : seen ws_pool (written ws_pool a buf) = ws_sent a := by
  have text : cstr (written ws_pool a buf).toList = cstr (clip JSON_SIZE (ascii a.json)) := by rw [written_bytes, cstr_json]
  have start : cstr (written ws_pool a buf).toList <+: (written ws_pool a buf).toList := List.takeWhile_prefix _
  rw [seen_text, ← List.prefix_iff_eq_take.mp start, text]
  rfl

section
variable (fw_keyhash : List UInt8) (boot_set_pending : Bool → Dev → Bool × Dev)

/-- What the UDP worker makes of a command. -/
def udp_work (m : FwMsg) (u : Upg) : FwReply × Upg := (fw_task m).run (exec fw_keyhash boot_set_pending) u

/-- What the WebSocket worker makes of an operation. -/
def ws_work (op : WsFwOp) (u : Upg) : Answer × Upg := (ws_fw_task op).run (exec fw_keyhash boot_set_pending) u

/-- A text that fits into a slot. -/
def Fits (a : Answer) : Prop := ws_sent a = ⟨(ascii a.json).length, ascii a.json⟩

instance (a : Answer) : Decidable (Fits a) := inferInstanceAs (Decidable (_ = _))

/-- Every text of the worker fits. -/
theorem ws_work_fits (op : WsFwOp) (u : Upg) : Fits (ws_work fw_keyhash boot_set_pending op u).1 := by
  cases op with
  | START total kh =>
    simp only [ws_work, ws_fw_task, ↓run_bind, ↓run_once, ↓run_pure, exec]
    unfold start_answer
    split_ifs <;> decide +kernel
  | END crc =>
    simp only [ws_work, ws_fw_task, ws_fw_end, ↓run_bind, ↓run_once, ↓run_ite, ↓run_pure, exec]
    split_ifs with empty partial_ refused pending
    · change Fits ⟨errReply "no data", false⟩
      decide +kernel
    · change Fits ⟨errReply "size mismatch", false⟩
      decide +kernel
    · change Fits ⟨errReply "crc mismatch", false⟩
      decide +kernel
    · simp only [pending, if_true]
      decide +kernel
    · simp only [eq_false_of_ne_true pending, Bool.false_eq_true, if_false]
      decide +kernel

theorem ws_replies_fit (u : Upg) (ops : List WsFwOp) :
    ∀ a ∈ replies (ws_work fw_keyhash boot_set_pending) u ops, Fits a := by
  induction ops generalizing u with
  | nil => nofun
  | cons op rest ih =>
    intro a member
    rcases List.mem_cons.mp member with rfl | later
    · exact ws_work_fits fw_keyhash boot_set_pending op u
    · exact ih _ a later

end

/-- In every interleaving of the workers with the TCP/IP thread in which fewer than two callbacks are
    outstanding when a message is taken up and neither posting nor sending fails, the callbacks send the
    replies as they were built, each to its requester, in the order of the messages and each once; and
    with no callback left, every message has got its reply. -/
theorem replies_delivered (fw_keyhash : List UInt8) (boot_set_pending : Bool → Dev → Bool × Dev) (u : Upg) :
    (∀ (slots : Nat → FwReplySlot) (es : List (Event FwMsg)),
      Meets (worker_step udp_pool (udp_work fw_keyhash boot_set_pending)) (Paced udp_pool) ⟨u, { slots := slots }, []⟩ es →
      let w := es.foldl (worker_step udp_pool (udp_work fw_keyhash boot_set_pending)) ⟨u, { slots := slots }, []⟩
      let built := replies (udp_work fw_keyhash boot_set_pending) u w.handled
      w.pool.sent = (built.take w.pool.sent.length).map (fun r => ⟨r.buf.length, r.buf, r.peer.addr, r.peer.port⟩) ∧
        (Drained w.pool → w.pool.sent = built.map fun r => ⟨r.buf.length, r.buf, r.peer.addr, r.peer.port⟩)) ∧
    ∀ (slots : Nat → Vector UInt8 80) (es : List (Event WsFwOp)),
      Meets (worker_step ws_pool (ws_work fw_keyhash boot_set_pending)) (Paced ws_pool) ⟨u, { slots := slots }, []⟩ es →
      let w := es.foldl (worker_step ws_pool (ws_work fw_keyhash boot_set_pending)) ⟨u, { slots := slots }, []⟩
      let built := replies (ws_work fw_keyhash boot_set_pending) u w.handled
      w.pool.sent = (built.take w.pool.sent.length).map (fun a => ⟨(ascii a.json).length, ascii a.json⟩) ∧
        (Drained w.pool → w.pool.sent = built.map fun a => ⟨(ascii a.json).length, ascii a.json⟩) := by
  constructor
  · intro slots es paced
    exact worker_delivers ⟨128, rfl⟩ udp_faithful u slots paced
  · intro slots es paced w built
    obtain ⟨first, all⟩ := worker_delivers ⟨128, rfl⟩ ws_faithful u slots paced
    have fit : ∀ a ∈ built, ws_sent a = ⟨(ascii a.json).length, ascii a.json⟩ :=
      ws_replies_fit fw_keyhash boot_set_pending u w.handled
    refine ⟨first.trans ?_, fun drained => (all drained).trans ?_⟩
    · exact List.map_congr_left fun a member => fit a (List.mem_of_mem_take member)
    · exact List.map_congr_left fit

/-- A stop-and-wait block from a host of a given number. -/
def block (host : Nat) : FwMsg := ⟨.DATA, ⟨host, 8600⟩, [1]⟩

/-- The worker's way from a message to its post. -/
def answering (host : Nat) : List (Event FwMsg) := [.handle (block host), .write, .write, .write, .write, .post true]

/-- A callback. -/
def calling : List (Event FwMsg) := [.take, .read, .read, .read, .read, .send true]

/-- The UDP worker at the start. -/
def udp_worker : Worker Upg FwMsg FwReply FwReplySlot Sending := ⟨idle, { slots := fun _ => ⟨0, 0, [], 0⟩ }, []⟩

/-- The worker as it runs without an upgrade. -/
def udp_run (es : List (Event FwMsg)) : Worker Upg FwMsg FwReply FwReplySlot Sending :=
  es.foldl (worker_step udp_pool (udp_work smallHash fun _ d => (true, d))) udp_worker

/-- With two requests under way at a time, each host gets its own reply. -/
theorem replies_delivered_two :
    (udp_run (answering 1 ++ answering 2 ++ calling ++ answering 3 ++ calling ++ calling)).pool.sent =
      [⟨5, [2, 0, 0, 0, 0], 1, 8600⟩, ⟨5, [2, 0, 0, 0, 0], 2, 8600⟩, ⟨5, [2, 0, 0, 0, 0], 3, 8600⟩] := by
  have delivered := (replies_delivered smallHash (fun _ d => (true, d)) idle).1 (fun _ => ⟨0, 0, [], 0⟩)
    (answering 1 ++ answering 2 ++ calling ++ answering 3 ++ calling ++ calling) (by decide +kernel)
  exact (delivered.2 ⟨rfl, rfl, rfl⟩).trans (by decide +kernel)

/-- With three requests handled before the first callback runs, the first reply has been overwritten: the
    third host gets two, the first none. -/
theorem reply_overwritten :
    let w := udp_run (answering 1 ++ answering 2 ++ answering 3 ++ calling ++ calling ++ calling)
    w.handled = [block 1, block 2, block 3] ∧ w.pool.writing.isNone ∧ w.pool.posted = [] ∧ w.pool.reading.isNone ∧
      w.pool.sent = [⟨5, [2, 0, 0, 0, 0], 3, 8600⟩, ⟨5, [2, 0, 0, 0, 0], 2, 8600⟩, ⟨5, [2, 0, 0, 0, 0], 3, 8600⟩] := by
  decide +kernel

end IoEdgeHub.Replies
