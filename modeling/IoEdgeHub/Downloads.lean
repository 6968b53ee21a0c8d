import IoEdgeHub.HttpTurns
import IoEdgeHub.WsOutput

/-!
The one file that is open for downloads (`web_fp` in `history/history.c`) and the
connections that share it. An observer follows the handle through the calls and notes
whether each request for a download found it closed; as long as that is so, and as long as
no segment is too large for a connection that downloads, the handle belongs to the one
connection whose response is the file.
-/
namespace IoEdgeHub.Downloads
open IoEdgeHub.Calls IoEdgeHub.CStrings IoEdgeHub.Ws IoEdgeHub.Httpd IoEdgeHub.HttpTurns
open IoEdgeHub.WsStream (closed closed_conns_other set_conns_self set_conns_other leave_ws_other)
open IoEdgeHub.WsOutput (Event callback)

/-- The open file: which one it is and how far it was read. -/
structure WebFile where
  name : List UInt8
  pos : Nat

/-- What a download and the other calls find behind them: the mounted file system, the pages
    of the other routes, and the answers to all other calls. `lfs_file_open` says the size of
    the file it has opened. -/
structure Behind (ω : Type) where
  mounted : ω → Bool
  hist_file_sync : ω → ω
  lfs_file_open : List UInt8 → ω → Option Nat × ω
  page : List UInt8 → List UInt8 → Option (List UInt8) → List UInt8 →
    ω → (List UInt8 × List UInt8 × List UInt8 × List UInt8) × ω
  answer : ∀ {β : Type}, Call β → ω → β × ω

structure World (ω : Type) where
  rest : ω
  web_fp : Option WebFile := none

def name_char (c : UInt8) : Bool :=
  isdigit c || (97 ≤ c && c ≤ 122) || (65 ≤ c && c ≤ 90) || c = 95 || c = 46 || c = 45

def history_web_name_valid (name : List UInt8) : Bool :=
  name.take 5 = ascii "data_" && name.all name_char && 5 < name.length && name.length < 32

/-- The value of `key` in a query, cut to a buffer of `outsz`. Each round skips a parameter. -/
def query_value (key : List UInt8) (outsz : Nat) : Nat → List UInt8 → Option (List UInt8)
  | 0, _ => none
  | fuel + 1, p =>
    if p = [] then none
    else
      let p := if p.head? = some 63 ∨ p.head? = some 38 then p.tail else p
      if p.take key.length = key ∧ p.getD key.length 0 = 61 then
        some (((p.drop (key.length + 1)).takeWhile (· ≠ 38)).take (outsz - 1))
      else query_value key outsz fuel (p.dropWhile (· ≠ 38))

def url_query_get (query key : List UInt8) (outsz : Nat) : Option (List UInt8) :=
  query_value key outsz (query.length + 1) query

section
variable {ω : Type} (b : Behind ω)

def history_web_open (name : List UInt8) (s : World ω) : Option Nat × World ω :=
  if ¬ b.mounted s.rest ∨ ¬ history_web_name_valid name then (none, s)
  else
    let rest := b.hist_file_sync s.rest
    if s.web_fp.isSome then (none, { s with rest })
    else
      match b.lfs_file_open name rest with
      | (some size, rest) => (some size, { rest, web_fp := some { name, pos := 0 } })
      | (none, rest) => (none, { s with rest })

def history_web_close (s : World ω) : World ω :=
  if s.web_fp.isSome then { rest := (b.answer .history_web_close s.rest).2, web_fp := none } else s

def history_web_read (size : Nat) (s : World ω) : Option (List UInt8) × World ω :=
  match s.web_fp with
  | none => (none, s)
  | some f =>
    let (bytes, rest) := b.answer (.history_web_read size) s.rest
    (bytes, { rest, web_fp := some { f with pos := f.pos + (bytes.getD []).length } })

/-- The file that a query names. -/
def requested (query : Option (List UInt8)) : Option (List UInt8) :=
  query.bind fun query => url_query_get query (ascii "name") 32

def is_download (method path : List UInt8) : Bool := method = ascii "GET" && path = ascii "/api/history/download"

/-- A request for a file that cannot be opened closes whatever file is open. -/
def refuse_download (s : World ω) : Route × World ω :=
  (.mem (ascii "400 Bad Request") (ascii "application/json") [] (json_err "invalid file name"), history_web_close b s)

def download (query : Option (List UInt8)) (s : World ω) : Route × World ω :=
  match requested query with
  | none => refuse_download b s
  | some name =>
    if ¬ history_web_name_valid name then refuse_download b s
    else
      match history_web_open b name s with
      | (none, s) => refuse_download b s
      | (some size, s) =>
        (.file size (clip 96 (ascii "Content-Disposition: attachment; filename=\"" ++ name ++ ascii "\"\r\n")), s)

/-- The route of a request. All others than the download answer from memory. -/
def dispatch (method path : List UInt8) (query : Option (List UInt8)) (body : List UInt8) (s : World ω) : Route × World ω :=
  if is_download method path then download b query s
  else
    let ((status, ctype, extra, text), rest) := b.page method path query body s.rest
    (.mem status ctype extra text, { s with rest })

def exec : ∀ {β : Type}, Call β → World ω → β × World ω
  | _, .dispatch method path query body, s => dispatch b method path query body s
  | _, .history_web_read size, s => history_web_read b size s
  | _, .history_web_close, s => ((), history_web_close b s)
  | _, c, s => ((b.answer c s.rest).1, { s with rest := (b.answer c s.rest).2 })

end

/-! ### The observer -/

/-- The handle as the calls and their answers show it, and whether every request for a
    download has found it closed. -/
structure Handle where
  fp : Option WebFile := none
  met : Bool := true

def Handle.dispatched (g : Handle) (method path : List UInt8) (query : Option (List UInt8)) : Route → Handle
  | .file _ _ => { fp := some { name := (requested query).getD [], pos := 0 }, met := g.met && g.fp.isNone }
  | .mem _ _ _ _ => if is_download method path then { fp := none, met := g.met && g.fp.isNone } else g

def followed (g : Handle) : ∀ {β : Type}, Call β → β → Handle
  | _, .dispatch method path query _, route => g.dispatched method path query route
  | _, .history_web_read _, bytes =>
    { g with fp := g.fp.map fun f => { f with pos := f.pos + (bytes.getD []).length } }
  | _, .history_web_close, _ => { g with fp := none }
  | _, _, _ => g

section
variable {ω : Type} {b : Behind ω}

theorem history_web_close_fp (s : World ω) : (history_web_close b s).web_fp = none := by
  unfold history_web_close
  cases opened : s.web_fp <;> simp [opened]

theorem history_web_open_fp (name : List UInt8) (s : World ω) :
    (∃ size, (history_web_open b name s).1 = some size ∧ (history_web_open b name s).2.web_fp = some { name, pos := 0 }) ∨
      ((history_web_open b name s).1 = none ∧ (history_web_open b name s).2.web_fp = s.web_fp) := by
  unfold history_web_open
  by_cases refused : ¬ b.mounted s.rest ∨ ¬ history_web_name_valid name
  · rw [if_pos refused]
    exact .inr ⟨rfl, rfl⟩
  rw [if_neg refused]
  by_cases busy : s.web_fp.isSome = true
  · rw [if_pos busy]
    exact .inr ⟨rfl, rfl⟩
  rw [if_neg busy]
  rcases b.lfs_file_open name (b.hist_file_sync s.rest) with ⟨_ | size, rest⟩
  · exact .inr ⟨rfl, rfl⟩
  · exact .inl ⟨size, rfl, rfl⟩

/-- What a request for a download does to the handle, as its answer shows it. -/
theorem download_fp (query : Option (List UInt8)) (s : World ω) :
    (∃ size extra, (download b query s).1 = .file size extra ∧
      (download b query s).2.web_fp = some { name := (requested query).getD [], pos := 0 }) ∨
      (∃ status ctype extra body, (download b query s).1 = .mem status ctype extra body ∧
        (download b query s).2.web_fp = none) := by
  have refused (s : World ω) : ∃ status ctype extra body, (refuse_download b s).1 = .mem status ctype extra body ∧
      (refuse_download b s).2.web_fp = none := ⟨_, _, _, _, rfl, history_web_close_fp s⟩
  unfold download
  cases requested query with
  | none => exact .inr (refused s)
  | some name =>
    by_cases valid : ¬ history_web_name_valid name
    · simp only [valid]
      exact .inr (refused s)
    simp only [valid, if_false]
    have opened := history_web_open_fp (b := b) name s
    generalize history_web_open b name s = result at opened ⊢
    obtain ⟨found, s'⟩ := result
    simp only at opened
    rcases opened with ⟨size, rfl, fp⟩ | ⟨rfl, -⟩
    · exact .inl ⟨size, _, rfl, fp⟩
    · exact .inr (refused s')

/-- The observer sees the handle as it is. -/
theorem exec_followed {β : Type} (c : Call β) (s : World ω) (g : Handle) (same : s.web_fp = g.fp) :
    (exec b c s).2.web_fp = (followed g c (exec b c s).1).fp := by
  cases c with
  | dispatch method path query body =>
    simp only [exec, followed, dispatch]
    by_cases wanted : is_download method path = true
    · simp only [wanted, if_true]
      rcases download_fp (b := b) query s with ⟨size, extra, route, fp⟩ | ⟨status, ctype, extra, text, route, fp⟩
      · rw [route, fp]
        rfl
      · rw [route, fp]
        simp [Handle.dispatched, wanted]
    · simp only [wanted, Bool.false_eq_true, if_false, Handle.dispatched, same]
  | history_web_read size =>
    simp only [exec, followed, history_web_read]
    rw [← same]
    cases opened : s.web_fp with
    | none => exact opened
    | some f => rfl
  | history_web_close => exact history_web_close_fp s
  | _ => exact same

end

/-- The handle is open iff it has an owner, and the owner is the one connection whose response
    is the file. An upgraded connection has no request left and never owns the handle. -/
structure Inv (w : Web) (g : Handle) (o : Option Slot) : Prop where
  kind : ∀ k, (w.conns k).kind = .RESP_FILE ↔ o = some k
  fp : g.fp.isSome = o.isSome
  ws : ∀ k, w.ws_conn = some k → (w.conns k).is_ws = true ∧ (w.conns k).kind ≠ .RESP_FILE
  quiet : ∀ k, (w.conns k).is_ws = true → (w.conns k).rx = [] ∧ (w.conns k).hdr_done = false

/-- An owner other than `j` has kept its file and its place in it, and its response. -/
def Elsewhere (j : Slot) (w : Web) (g : Handle) (o : Option Slot) (w' : Web) (g' : Handle) (o' : Option Slot) : Prop :=
  ∀ k, k ≠ j → o = some k → o' = some k ∧ g'.fp = g.fp ∧ w'.conns k = w.conns k

/-- What a callback of connection `j` does, as long as the observer is content. -/
def Kept (j : Slot) (w : Web) (g : Handle) (o : Option Slot) (g' : Handle) (w' : Web) : Prop :=
  g'.met = true → ∃ o', Inv w' g' o' ∧ Elsewhere j w g o w' g' o'

section
variable {w w' w'' : Web} {g g' g'' : Handle} {o o' o'' : Option Slot} {i j : Slot} {c : Conn} {fuel n : Nat} {α : Type}

theorem elsewhere_refl (j : Slot) (w : Web) (g : Handle) (o : Option Slot) : Elsewhere j w g o w g o :=
  fun _ _ own => ⟨own, rfl, rfl⟩

theorem elsewhere_trans (first : Elsewhere j w g o w' g' o') (second : Elsewhere j w' g' o' w'' g'' o'') :
    Elsewhere j w g o w'' g'' o'' := by
  intro k other own
  obtain ⟨own', fp, conn⟩ := first k other own
  obtain ⟨own'', fp', conn'⟩ := second k other own'
  exact ⟨own'', fp'.trans fp, conn'.trans conn⟩

theorem followed_unmet {β : Type} (unmet : g.met = false) (c : Call β) (r : β) : (followed g c r).met = false := by
  cases c with
  | dispatch method path query body =>
    simp only [followed]
    cases r with
    | file size extra => simp [Handle.dispatched, unmet]
    | mem status ctype extra text =>
      simp only [Handle.dispatched]
      split <;> simp [unmet]
  | _ => exact unmet

theorem ends_unmet (unmet : g.met = false) (p : Prog Call α) : p.Ends @followed (fun g' _ => g'.met = false) g := by
  induction p generalizing g with
  | ret a => exact unmet
  | call c next ih => exact fun r => ih r (followed_unmet unmet c r)

/-- What follows on something that was kept. -/
theorem ends_next {p : Prog Call Web} (kept : Kept j w g o g' w')
    (next : ∀ o', Inv w' g' o' → p.Ends @followed (Kept j w' g' o') g') : p.Ends @followed (Kept j w g o) g' := by
  by_cases met : g'.met = true
  · obtain ⟨o', inv', elsewhere⟩ := kept met
    refine ends_mono (next o' inv') fun g'' w'' kept' met' => ?_
    obtain ⟨o'', inv'', elsewhere'⟩ := kept' met'
    exact ⟨o'', inv'', elsewhere_trans elsewhere elsewhere'⟩
  · refine ends_mono (ends_unmet (by simpa using met) p) fun g'' w'' unmet met' => ?_
    simp [unmet] at met'

/-- A connection can change as long as the handle goes with its response. -/
theorem inv_set (inv : Inv w g o) (kind : c.kind = .RESP_FILE ↔ o' = some j) (others : ∀ k, k ≠ j → (o' = some k ↔ o = some k))
    (fp : g'.fp.isSome = o'.isSome) (ws : w.ws_conn = some j → c.is_ws = true ∧ c.kind ≠ .RESP_FILE)
    (quiet : c.is_ws = true → c.rx = [] ∧ c.hdr_done = false) : Inv (w.set j c) g' o' where
  kind := fun k => by
    by_cases same : k = j
    · subst same
      rw [set_conns_self]
      exact kind
    · rw [set_conns_other same, others k same]
      exact inv.kind k
  fp := fp
  ws := fun k upgraded => by
    by_cases same : k = j
    · subst same
      rw [set_conns_self]
      exact ws upgraded
    · rw [set_conns_other same]
      exact inv.ws k upgraded
  quiet := fun k => by
    by_cases same : k = j
    · subst same
      rw [set_conns_self]
      exact quiet
    · rw [set_conns_other same]
      exact inv.quiet k

theorem elsewhere_set (c : Conn) : Elsewhere j w g o (w.set j c) g o :=
  fun _ other own => ⟨own, rfl, set_conns_other other c⟩

theorem inv_fp (inv : Inv w g o) (same : g'.fp.isSome = g.fp.isSome) : Inv w g' o where
  kind := inv.kind
  fp := same.trans inv.fp
  ws := inv.ws
  quiet := inv.quiet

/-- Nothing changes that matters to the handle. -/
structure Alike (c c' : Conn) : Prop where
  kind : c'.kind = c.kind
  is_ws : c'.is_ws = c.is_ws
  rx : c'.is_ws = true → c'.rx = c.rx ∧ c'.hdr_done = c.hdr_done

theorem inv_alike (inv : Inv w g o) (alike : Alike (w.conns j) c) : Inv (w.set j c) g o := by
  refine inv_set inv ?_ (fun _ _ => Iff.rfl) inv.fp ?_ ?_
  · rw [alike.kind]
    exact inv.kind j
  · intro upgraded
    rw [alike.kind, alike.is_ws]
    exact inv.ws j upgraded
  · intro upgraded
    obtain ⟨rx, hdr_done⟩ := alike.rx upgraded
    rw [rx, hdr_done]
    exact inv.quiet j (alike.is_ws ▸ upgraded)

theorem leave_ws_kind : ((leave_ws i w).conns i).kind = (w.conns i).kind := by
  unfold leave_ws
  split <;> simp [ws_detach, Web.set]

/-- The handle after a connection has ended. -/
def released (g : Handle) (c : Conn) : Handle := if c.kind = .RESP_FILE then { g with fp := none } else g

@[simp] theorem ends_conn_close {post : Handle → Web → Prop} :
    (conn_close i w).Ends @followed post g ↔ post (released g (w.conns i)) (closed i w) := by
  unfold conn_close released
  by_cases opened : ((leave_ws i w).conns i).pcb <;> by_cases file : (w.conns i).kind = .RESP_FILE <;>
    simp [opened, file, leave_ws_kind, call, closed, followed]

@[simp] theorem ends_http_err_cb {post : Handle → Web → Prop} :
    (http_err_cb i w).Ends @followed post g ↔ post (released g (w.conns i)) (closed i w) := by
  unfold http_err_cb released
  by_cases file : (w.conns i).kind = .RESP_FILE <;> simp [file, leave_ws_kind, call, closed, followed]

theorem closed_self : ((closed i w).conns i).kind = .RESP_NONE ∧ ((closed i w).conns i).is_ws = false := by
  unfold closed leave_ws
  split
  · simp [ws_detach]
  · rename_i plain
    simpa using plain

theorem closed_ws_conn {k : Slot} (upgraded : (closed i w).ws_conn = some k) (own : w.ws_conn = some i → (w.conns i).is_ws = true) :
    w.ws_conn = some k ∧ k ≠ i := by
  unfold closed leave_ws at upgraded
  by_cases is_ws : (w.conns i).is_ws = true
  · by_cases same : w.ws_conn = some i
    · simp [is_ws, ws_detach, Web.set, same] at upgraded
    · simp only [is_ws, if_true, ws_detach, Web.set, same, if_false] at upgraded
      exact ⟨upgraded, fun eq => same (eq ▸ upgraded)⟩
  · simp only [is_ws, Bool.false_eq_true, if_false, Web.set] at upgraded
    refine ⟨upgraded, ?_⟩
    rintro rfl
    exact is_ws (own upgraded)

/-- A connection that ends gives the handle back if it is its own. -/
theorem inv_closed (inv : Inv w g o) : Inv (closed i w) (released g (w.conns i)) (if o = some i then none else o) where
  kind := fun k => by
    by_cases same : k = i
    · subst same
      by_cases own : o = some k <;> simp [closed_self.1, own]
    · rw [closed_conns_other same, inv.kind k]
      by_cases own : o = some i
      · simp [own, Ne.symm same]
      · simp [own]
  fp := by
    unfold released
    by_cases own : o = some i
    · simp [(inv.kind i).mpr own, own]
    · have other : (w.conns i).kind ≠ .RESP_FILE := fun file => own ((inv.kind i).mp file)
      simp [other, own, inv.fp]
  ws := fun k upgraded => by
    obtain ⟨before, other⟩ := closed_ws_conn upgraded fun own => (inv.ws i own).1
    rw [closed_conns_other other]
    exact inv.ws k before
  quiet := fun k upgraded => by
    by_cases same : k = i
    · subst same
      simp [closed_self.2] at upgraded
    · rw [closed_conns_other same] at upgraded ⊢
      exact inv.quiet k upgraded

theorem kept_closed (inv : Inv w g o) : Kept j w g o (released g (w.conns j)) (closed j w) := by
  intro _
  refine ⟨_, inv_closed inv, ?_⟩
  intro k other own
  have not_own : o ≠ some j := by
    rw [own]
    simpa using other
  have plain : (w.conns j).kind ≠ .RESP_FILE := fun file => not_own ((inv.kind j).mp file)
  exact ⟨(if_neg not_own).trans own, by simp [released, plain], closed_conns_other other⟩

/-! ### The session -/

/-- A connection that the session has closed. -/
structure Ended (c : Conn) : Prop where
  kind : c.kind = .RESP_NONE
  is_ws : c.is_ws = false

/-- The session goes on and the connections are as they were, or the one it had is closed. -/
def Fed (w w' : Web) : Prop :=
  (w'.conns = w.conns ∧ w'.ws_conn = w.ws_conn) ∨
    ∃ k, w.ws_conn = some k ∧ w'.ws_conn = none ∧ Ended (w'.conns k) ∧ ∀ j, j ≠ k → w'.conns j = w.conns j

/-- The session's connection does not download. -/
def Plain (w : Web) : Prop := ∀ k, w.ws_conn = some k → (w.conns k).kind ≠ .RESP_FILE

theorem fed_refl (w : Web) : Fed w w := .inl ⟨rfl, rfl⟩

theorem fed_trans (first : Fed w w') (second : Fed w' w'') : Fed w w'' := by
  rcases first with ⟨conns, ws_conn⟩ | ⟨k, own, gone, ended, others⟩
  · rcases second with ⟨conns', ws_conn'⟩ | ⟨k, own, gone, ended, others⟩
    · exact .inl ⟨conns'.trans conns, ws_conn'.trans ws_conn⟩
    · exact .inr ⟨k, ws_conn ▸ own, gone, ended, fun j other => (others j other).trans (by rw [conns])⟩
  · rcases second with ⟨conns', ws_conn'⟩ | ⟨k', own', -⟩
    · refine .inr ⟨k, own, ws_conn'.trans gone, ?_, ?_⟩
      · rw [conns']
        exact ended
      · intro j other
        rw [conns']
        exact others j other
    · simp [gone] at own'

theorem plain_fed (plain : Plain w) (fed : Fed w w') : Plain w' := by
  rcases fed with ⟨conns, ws_conn⟩ | ⟨_, _, gone, _⟩
  · intro k own
    rw [conns]
    exact plain k (ws_conn ▸ own)
  · intro k own
    simp [gone] at own

theorem ends_ws_close_session (plain : Plain w) :
    (ws_close_session w).Ends @followed (fun g' w' => g' = g ∧ Fed w w') g := by
  unfold ws_close_session ws_closed_cb
  rw [ends_ite]
  refine ⟨fun _ => ?_, fun _ => ⟨rfl, fed_refl w⟩⟩
  have same : (ws_detach w).ws_conn = w.ws_conn := rfl
  rw [same]
  cases own : w.ws_conn with
  | none => exact ⟨rfl, .inl ⟨rfl, own ▸ rfl⟩⟩
  | some k =>
    rw [ends_conn_close]
    have other : (w.conns k).kind ≠ .RESP_FILE := plain k own
    refine ⟨by simp [released, ws_detach, other], .inr ⟨k, own, ?_, ⟨closed_self.1, closed_self.2⟩, ?_⟩⟩
    · unfold closed leave_ws
      split <;> simp [ws_detach, Web.set]
    · intro j different
      rw [closed_conns_other different]
      rfl

theorem ends_ws_send (opcode : UInt8) (payload : List UInt8) :
    (ws_send w opcode payload).Ends @followed (fun g' _ => g' = g) g := by
  unfold ws_send
  split
  · rfl
  · simp only [call, ends_bind, ends_once, ends_ite, ends_pure, followed]
    refine fun _ => ⟨fun _ => trivial, fun _ e => ⟨fun _ => trivial, fun _ => ⟨fun _ _ => trivial, fun _ e' => ?_⟩⟩⟩
    exact ⟨fun _ _ => trivial, fun _ => trivial⟩

theorem ends_send_then {p : Prog Call Web} {post : Handle → Web → Prop} {opcode : UInt8} {payload : List UInt8}
    (next : p.Ends @followed post g) : (ws_send w opcode payload >>= fun _ => p).Ends @followed post g := by
  rw [ends_bind]
  refine ends_mono (ends_ws_send opcode payload) ?_
  rintro _ _ rfl
  exact next

theorem ends_ws_frame_done (plain : Plain w) :
    (ws_frame_done w).Ends @followed (fun g' w' => g' = g ∧ Fed w w') g := by
  have stays : g = g ∧ Fed w w := ⟨rfl, fed_refl w⟩
  unfold ws_frame_done
  simp only [ends_ite]
  refine ⟨fun _ => ends_send_then (ends_ws_close_session plain), fun _ => ⟨fun _ => ⟨fun _ => ?_, fun _ => stays⟩,
    fun _ => ⟨fun _ _ => stays, fun _ => ⟨fun _ => ends_send_then (ends_ws_close_session plain), fun _ =>
      ⟨fun _ => ends_send_then stays, fun _ => ⟨fun _ => stays, fun _ => ends_ws_close_session plain⟩⟩⟩⟩⟩⟩
  simp only [call, ends_bind, ends_once]
  intro answer
  cases answer with
  | none => exact stays
  | some json => exact ends_send_then stays

theorem ends_ws_feed (data : List UInt8) (plain : Plain w) :
    (ws_feed w data).Ends @followed (fun g' w' => g' = g ∧ Fed w w') g := by
  induction data generalizing w with
  | nil => exact ⟨rfl, fed_refl w⟩
  | cons x data ih =>
    have plain_rx {w : Web} (plain : Plain w) (rx : Rx) : Plain (w.setRx rx) := plain
    unfold ws_feed
    rw [ends_ite]
    refine ⟨fun _ => ⟨rfl, fed_refl w⟩, fun _ => ?_⟩
    rcases ws_byte w.ws.rx x with ⟨event, rx⟩
    cases event with
    | next => exact ih (plain_rx plain rx)
    | close => exact ends_ws_close_session (plain_rx plain rx)
    | frame_done =>
      simp only [ends_bind]
      refine ends_mono (ends_ws_frame_done (plain_rx plain rx)) ?_
      rintro _ w' ⟨rfl, fed⟩
      rw [ends_ite]
      refine ⟨fun _ => ⟨rfl, fed⟩, fun _ => ?_⟩
      refine ends_mono (ih (plain_rx (plain_fed (plain_rx plain rx) fed) _)) ?_
      rintro _ w'' ⟨rfl, fed'⟩
      exact ⟨rfl, fed_trans fed fed'⟩

theorem ends_ws_attach (i : Slot) (pending : List UInt8) (plain : Plain w) :
    (ws_attach i pending w).Ends @followed (fun g' w' => g' = g ∧ Fed w w') g := by
  unfold ws_attach
  rw [ends_ite]
  refine ⟨fun _ => ⟨rfl, fed_refl w⟩, fun _ => ?_⟩
  simp only [call, ends_bind, ends_once]
  intro now _
  have plain' (ws : Session) : Plain { w with ws } := plain
  exact ends_mono (ends_ws_feed pending (plain' _)) fun _ _ fed => fed

/-- A text that is built and pushed. -/
theorem ends_push {c : Call (List UInt8)} {p : Prog Call Web} {post : Handle → Web → Prop} (ignored : ∀ g r, followed g c r = g)
    (next : p.Ends @followed post g) :
    (call c >>= fun json => ws_send w 0x1 json >>= fun _ => p).Ends @followed post g := by
  simp only [call, ends_bind, ends_once, ignored]
  intro json
  refine ends_mono (ends_ws_send 0x1 json) ?_
  rintro _ _ rfl
  exact next

theorem ends_push_info (now : UInt32) : (push_info now w).Ends @followed (fun g' w' => g' = g ∧ Fed w w') g := by
  unfold push_info
  rw [ends_ite]
  exact ⟨fun _ => ends_push (fun _ _ => rfl) ⟨rfl, fed_refl w⟩, fun _ => ⟨rfl, fed_refl w⟩⟩

theorem ends_push_state (now : UInt32) : (push_state now w).Ends @followed (fun g' w' => g' = g ∧ Fed w w') g := by
  unfold push_state
  rw [ends_ite]
  refine ⟨fun _ => ?_, fun _ => ⟨rfl, fed_refl w⟩⟩
  exact ends_push (fun _ _ => rfl) (ends_push (fun _ _ => rfl) ⟨rfl, fed_refl w⟩)

theorem ends_ws_poll : (ws_poll w).Ends @followed (fun g' w' => g' = g ∧ Fed w w') g := by
  unfold ws_poll
  simp only [call, ends_bind, ends_once, ends_ite, ends_pure]
  refine fun now => ⟨fun _ => ⟨rfl, fed_refl w⟩, fun _ => ?_⟩
  refine ends_mono (ends_push_state now) ?_
  rintro _ w' ⟨rfl, fed⟩
  refine ends_mono (ends_push_info now) ?_
  rintro _ w'' ⟨rfl, fed'⟩
  exact ⟨rfl, fed_trans fed fed'⟩

/-- The session's part leaves the handle with its owner. -/
theorem inv_fed (inv : Inv w g o) (fed : Fed w w') : Inv w' g o ∧ ∀ k, o = some k → w'.conns k = w.conns k := by
  rcases fed with ⟨conns, ws_conn⟩ | ⟨x, own, gone, ended, others⟩
  · refine ⟨⟨?_, inv.fp, ?_, ?_⟩, fun k _ => by rw [conns]⟩
    · rw [conns]
      exact inv.kind
    · rw [conns, ws_conn]
      exact inv.ws
    · rw [conns]
      exact inv.quiet
  · have not_owner : o ≠ some x := fun same => (inv.ws x own).2 ((inv.kind x).mpr same)
    refine ⟨⟨fun k => ?_, inv.fp, fun k upgraded => ?_, fun k upgraded => ?_⟩, fun k owner => others k ?_⟩
    · by_cases same : k = x
      · subst same
        simp [ended.kind, not_owner]
      · rw [others k same]
        exact inv.kind k
    · simp [gone] at upgraded
    · by_cases same : k = x
      · subst same
        simp [ended.is_ws] at upgraded
      · rw [others k same] at upgraded ⊢
        exact inv.quiet k upgraded
    · rintro rfl
      exact not_owner owner

theorem plain_of_inv (inv : Inv w g o) : Plain w := fun k own => (inv.ws k own).2

theorem kept_fed (inv : Inv w g o) (fed : Fed w w') : Kept j w g o g w' := by
  intro _
  obtain ⟨inv', owner⟩ := inv_fed inv fed
  exact ⟨o, inv', fun k _ own => ⟨own, rfl, owner k own⟩⟩

/-- Reading the file moves the handle and does not close it. -/
theorem keeps_file (j : Slot) :
    Keeps @followed j fun g g' => g'.met = g.met ∧ g'.fp.isSome = g.fp.isSome where
  refl := fun _ => ⟨rfl, rfl⟩
  trans := fun first second => ⟨second.1.trans first.1, second.2.trans first.2⟩
  sndbuf := fun _ _ => ⟨rfl, rfl⟩
  write := fun _ _ _ => ⟨rfl, rfl⟩
  mss := fun _ _ => ⟨rfl, rfl⟩
  output := fun _ _ => ⟨rfl, rfl⟩

theorem keeps_mem (j : Slot) : Keeps @followed j fun g g' => g' = g where
  refl := fun _ => rfl
  trans := fun first second => second.trans first
  sndbuf := fun _ _ => rfl
  write := fun _ _ _ => rfl
  mss := fun _ _ => rfl
  output := fun _ _ => rfl

theorem ends_pump_response (inv : Inv w g o) :
    (pump_response fuel j (w.conns j)).Ends @followed
      (fun g' r => Kept j w g o g' (w.set j r.2) ∧ Inv (w.set j r.2) g' o ∧ Frame (w.conns j) r.2) g := by
  by_cases file : (w.conns j).kind = .RESP_FILE
  · have own : o = some j := (inv.kind j).mp file
    refine ends_mono (moved_pump_response (keeps_file j) (fun _ _ _ _ => ⟨rfl, by simp [followed]⟩) g) ?_
    rintro g' ⟨good, c⟩ ⟨⟨-, fp⟩, frame⟩
    have inv' : Inv (w.set j c) g' o :=
      inv_fp (inv_alike inv ⟨frame.kind, frame.is_ws, fun _ => ⟨frame.rx, frame.hdr_done⟩⟩) fp
    refine ⟨fun _ => ⟨o, inv', fun k other owner => ?_⟩, inv', frame⟩
    exact absurd (Option.some.inj (owner.symm.trans own)) other
  · refine ends_mono (moved_pump_response (keeps_mem j) (fun is_file => absurd is_file file) g) ?_
    rintro g' ⟨good, c⟩ ⟨seen, frame⟩
    obtain rfl : g' = g := seen
    have inv' : Inv (w.set j c) g' o := inv_alike inv ⟨frame.kind, frame.is_ws, fun _ => ⟨frame.rx, frame.hdr_done⟩⟩
    exact ⟨fun _ => ⟨o, inv', elsewhere_set c⟩, inv', frame⟩

theorem set_set (c c' : Conn) : (w.set j c).set j c' = w.set j c' := by
  simp only [Web.set, Web.mk.injEq, and_self, and_true]
  funext k
  by_cases same : k = j <;> simp [same]

/-- A response that is over gives the handle back. -/
theorem kept_done {c' : Conn} (inv : Inv w g o) (kind : c'.kind = .RESP_NONE) (is_ws : c'.is_ws = (w.conns j).is_ws)
    (quiet : c'.is_ws = true → c'.rx = [] ∧ c'.hdr_done = false) :
    Kept j w g o (released g (w.conns j)) (w.set j c') := by
  intro _
  refine ⟨if o = some j then none else o, inv_set inv ?_ ?_ ?_ ?_ quiet, ?_⟩
  · by_cases own : o = some j <;> simp [kind, own]
  · intro k other
    by_cases own : o = some j
    · simp [own, Ne.symm other]
    · simp [own]
  · exact (inv_closed inv).fp
  · intro upgraded
    exact ⟨is_ws.trans (inv.ws j upgraded).1, by simp [kind]⟩
  · intro k other own
    have not_own : o ≠ some j := by
      rw [own]
      simpa using other
    have plain : (w.conns j).kind ≠ .RESP_FILE := fun file => not_own ((inv.kind j).mp file)
    exact ⟨(if_neg not_own).trans own, by simp [released, plain], set_conns_other other c'⟩

section
variable {process : Web → Prog Call Web}
  (on : ∀ {w : Web} {g : Handle} {o : Option Slot}, Inv w g o → (process w).Ends @followed (Kept j w g o) g)
include on

theorem ends_response_done (inv : Inv (w.set j c) g o) :
    (response_done process j w c).Ends @followed (Kept j (w.set j c) g o) g := by
  have ended : (if ¬ c.keep_alive then conn_close j (w.set j { c with kind := .RESP_NONE, hdr_done := false })
      else do
        let now ← call .now_ms
        let w := w.set j { c with kind := .RESP_NONE, hdr_done := false, t_idle := now }
        if c.rx ≠ [] then process w else pure w : Prog Call Web).Ends @followed (Kept j (w.set j c) g o)
          (released g c) := by
    have finished (c' : Conn) (kind : c'.kind = .RESP_NONE) (is_ws : c'.is_ws = c.is_ws) (rx : c'.rx = c.rx)
        (hdr_done : c'.hdr_done = false) : Kept j (w.set j c) g o (released g c) (w.set j c') := by
      have kept := @kept_done _ _ _ j c' inv kind (by simpa using is_ws) fun upgraded => by
        have empty := (inv.quiet j (by simpa [is_ws] using upgraded)).1
        exact ⟨rx.trans (by simpa using empty), hdr_done⟩
      simpa only [set_conns_self, set_set] using kept
    simp only [call, ends_ite, ends_bind, ends_once, ends_pure]
    constructor
    · intro _
      have idle := finished { c with kind := .RESP_NONE, hdr_done := false } rfl rfl rfl rfl
      exact ends_next idle fun o' inv' => ends_conn_close.mpr (kept_closed inv')
    · intro _ now
      have idle := finished { c with kind := .RESP_NONE, hdr_done := false, t_idle := now } rfl rfl rfl rfl
      exact ⟨fun _ => ends_next idle fun o' inv' => on inv', fun _ => idle⟩
  unfold response_done
  rw [ends_ite]
  unfold released at ended
  refine ⟨fun file r => ?_, fun mem => ?_⟩
  · rwa [if_pos file] at ended
  · rwa [if_neg mem] at ended

theorem ends_conn_pump (inv : Inv w g o) : (conn_pump fuel process j w).Ends @followed (Kept j w g o) g := by
  unfold conn_pump
  rw [ends_ite]
  refine ⟨fun _ _ => ⟨o, inv, elsewhere_refl j w g o⟩, fun _ => ?_⟩
  rw [ends_bind]
  refine ends_mono (ends_pump_response inv) ?_
  rintro g' ⟨good, c⟩ ⟨kept, inv', -⟩
  simp only [call, ends_ite, ends_bind, ends_once, ends_pure]
  refine ⟨fun _ => ends_next kept fun o' inv' => ends_conn_close.mpr (kept_closed inv'), fun _ _ => ⟨fun _ => ?_, fun _ => kept⟩⟩
  exact ends_next kept fun o' inv' => ends_response_done @on inv'

/-- Connection `j` can take a request: it neither downloads nor is it upgraded. -/
structure Ready (w : Web) (g : Handle) (o : Option Slot) (j : Slot) : Prop where
  inv : Inv w g o
  other : o ≠ some j
  not_ws : (w.conns j).is_ws = false

omit on in
theorem not_ws_conn (ready : Ready w g o j) : w.ws_conn ≠ some j := by
  intro own
  have upgraded := (ready.inv.ws j own).1
  simp [ready.not_ws] at upgraded

omit on in
theorem kept_plain (ready : Ready w g o j) (kind : c.kind ≠ .RESP_FILE) (not_ws : c.is_ws = false) :
    Kept j w g o g (w.set j c) := by
  intro _
  refine ⟨o, inv_set ready.inv ?_ (fun _ _ => Iff.rfl) ready.inv.fp ?_ ?_, elsewhere_set c⟩
  · exact iff_of_false kind ready.other
  · exact fun own => absurd own (not_ws_conn ready)
  · simp [not_ws]

omit on in
/-- A download begins with a handle that was closed. -/
theorem kept_file (ready : Ready w g o j) (kind : c.kind = .RESP_FILE) (not_ws : c.is_ws = false) (free : g.fp = none)
    (opened : g'.fp.isSome = true) : Kept j w g o g' (w.set j c) := by
  intro _
  have nobody : o = none := by simpa [free] using ready.inv.fp.symm
  refine ⟨some j, inv_set ready.inv (by simp [kind]) ?_ opened ?_ ?_, ?_⟩
  · intro k other
    simp [nobody, Ne.symm other]
  · exact fun own => absurd own (not_ws_conn ready)
  · simp [not_ws]
  · intro k _ own
    simp [nobody] at own

omit on in
theorem mem_response_kind (now : UInt32) (status ctype body : List UInt8) (keep : Bool) (extra : List UInt8) :
    (mem_response c now status ctype body keep extra).kind ≠ .RESP_FILE ∧
      (mem_response c now status ctype body keep extra).is_ws = c.is_ws := by
  unfold mem_response
  split <;> exact ⟨by simp, rfl⟩

omit on in
theorem ends_respond_mem (status ctype body extra : List UInt8) (keep : Bool) :
    (respond_mem c status ctype body keep extra).Ends @followed
      (fun g' c' => g' = g ∧ c'.kind ≠ .RESP_FILE ∧ c'.is_ws = c.is_ws) g := by
  rw [respond_mem_eq]
  exact fun now => ⟨rfl, mem_response_kind now status ctype body keep extra⟩

/-- What a route leads to, as far as the observer is content: a response from memory, or a
    download with a handle that was closed before. -/
def Answered (g : Handle) (c : Conn) (g' : Handle) (c' : Conn) : Prop :=
  g'.met = true → c'.is_ws = c.is_ws ∧
    ((c'.kind ≠ .RESP_FILE ∧ g' = g) ∨ (c'.kind = .RESP_FILE ∧ g.fp = none ∧ g'.fp.isSome = true))

omit on in
theorem dispatched_mem (method path : List UInt8) (query : Option (List UInt8)) (status ctype extra text : List UInt8)
    (met : (g.dispatched method path query (.mem status ctype extra text)).met = true) :
    g.dispatched method path query (.mem status ctype extra text) = g := by
  unfold Handle.dispatched at met ⊢
  by_cases wanted : is_download method path = true
  · simp only [wanted, if_true, Bool.and_eq_true, Option.isNone_iff_eq_none] at met ⊢
    obtain ⟨met, free⟩ := met
    cases g
    simp_all
  · simp only [wanted, Bool.false_eq_true, if_false]

omit on in
theorem ends_respond (method path : List UInt8) (query : Option (List UInt8)) (route : Route) :
    (respond c route).Ends @followed (Answered g c) (g.dispatched method path query route) := by
  cases route with
  | mem status ctype extra text =>
    refine ends_mono (ends_respond_mem status ctype text extra true) ?_
    rintro _ c' ⟨rfl, kind, is_ws⟩ met
    exact ⟨is_ws, .inl ⟨kind, dispatched_mem method path query status ctype extra text met⟩⟩
  | file size extra =>
    rw [respond_file_eq]
    simp only [call, ends_bind, ends_once, ends_ite, ends_pure]
    refine fun now => ⟨fun _ _ => ?_, fun _ met => ?_⟩
    · refine ends_mono (ends_respond_mem _ _ _ _ _) ?_
      rintro _ c' ⟨rfl, kind, is_ws⟩ met
      have before : g.met = true ∧ g.fp = none := by simpa [followed, Handle.dispatched] using met
      refine ⟨is_ws, .inl ⟨kind, ?_⟩⟩
      cases g
      simp_all [followed, Handle.dispatched]
    · have before : g.met = true ∧ g.fp = none := by simpa [followed, Handle.dispatched] using met
      exact ⟨rfl, .inr ⟨rfl, before.2, rfl⟩⟩

theorem ends_refuse (ready : Ready w g o j) (not_ws : c.is_ws = false) (err : String) (keep : Bool) :
    (refuse (conn_pump fuel process j) j w c err keep).Ends @followed (Kept j w g o) g := by
  unfold refuse
  simp only [ends_bind]
  refine ends_mono (ends_respond_mem _ _ _ _ _) ?_
  rintro _ c' ⟨rfl, kind, is_ws⟩
  have begun : Kept j w _ o _ (w.set j { c' with keep_alive := keep && c'.keep_alive }) :=
    kept_plain ready kind (is_ws.trans not_ws)
  refine ends_mono (ends_next begun fun o' inv' => ends_conn_pump @on inv') ?_
  intro g' w' kept
  rw [ends_ite]
  exact ⟨fun _ => ends_next kept fun o' inv' => ends_conn_close.mpr (kept_closed inv'), fun _ => kept⟩

theorem ends_answer (kept : Kept j w g o g' (w.set j (c.consume n))) :
    (answer (conn_pump fuel process j) j w c n process).Ends @followed (Kept j w g o) g' := by
  unfold answer
  rw [ends_bind]
  refine ends_mono (ends_next kept fun o' inv' => ends_conn_pump @on inv') ?_
  intro g'' w' kept'
  rw [ends_ite]
  exact ⟨fun _ => kept', fun _ => ends_next kept' fun o' inv' => on inv'⟩

omit on in
theorem ends_upgrade_response (hdr_len : Nat) :
    (upgrade_response i w hdr_len).Ends @followed (fun g' _ => g' = g) g := by
  unfold upgrade_response
  rw [ends_ite]
  refine ⟨fun _ => rfl, fun _ => ?_⟩
  split
  · rfl
  · unfold read_key
    simp only [call, ends_bind, ends_ite, ends_once, ends_pure]
    exact ⟨fun _ => trivial, fun _ _ => rfl⟩

omit on in
/-- The upgraded connection once the session has taken what was received. -/
theorem kept_upgraded (ready : Ready w g o j) (upgraded : c.is_ws = true) (kind : c.kind ≠ .RESP_FILE)
    (fed : Fed { w.set j c with ws_conn := some j } w') :
    Kept j w g o g (w'.set j { w'.conns j with rx := [], hdr_done := false }) := by
  intro _
  have others (k : Slot) (other : k ≠ j) : w'.conns k = w.conns k := by
    rcases fed with ⟨conns, -⟩ | ⟨x, own, -, -, same⟩
    · rw [conns]
      exact set_conns_other other c
    · obtain rfl : j = x := by simpa using own
      exact (same k other).trans (set_conns_other other c)
  have self : (w'.conns j).kind ≠ .RESP_FILE ∧ (w'.ws_conn = some j → (w'.conns j).is_ws = true) ∧
      ∀ k, w'.ws_conn = some k → k = j := by
    rcases fed with ⟨conns, ws_conn⟩ | ⟨x, own, gone, ended, -⟩
    · rw [conns, ws_conn]
      simp [Web.set, upgraded, kind]
    · obtain rfl : j = x := by simpa using own
      simp [ended.kind, gone]
  obtain ⟨not_file, is_ws, only⟩ := self
  refine ⟨o, ⟨fun k => ?_, ready.inv.fp, fun k own => ?_, fun k now_ws => ?_⟩, fun k other own => ⟨own, rfl, ?_⟩⟩
  · by_cases same : k = j
    · subst same
      simp [not_file, ready.other]
    · rw [set_conns_other same, others k same]
      exact ready.inv.kind k
  · obtain rfl : k = j := only k own
    rw [set_conns_self]
    exact ⟨is_ws own, not_file⟩
  · by_cases same : k = j
    · subst same
      simp
    · rw [set_conns_other same, others k same] at now_ws ⊢
      exact ready.inv.quiet k now_ws
  · rw [set_conns_other other, others k other]

theorem ends_upgrade (ready : Ready w g o j) (resp : List UInt8) :
    (upgrade (conn_pump fuel process j) j w resp).Ends @followed (Kept j w g o) g := by
  unfold upgrade
  simp only [call, ends_bind, ends_once]
  intro now
  refine ends_mono (ends_ws_attach j _ ?_) ?_
  · intro k own
    obtain rfl : j = k := by simpa using own
    simp [Web.set]
  · rintro g' w' ⟨rfl, fed⟩
    exact ends_next (kept_upgraded ready rfl (by simp) fed) fun o' inv' => ends_conn_pump @on inv'

/-- A round, whatever its turn. -/
theorem ends_round (ready : Ready w g o j) (t : Turn) :
    (take_turn (conn_pump fuel process j) process j w t).Ends @followed (Kept j w g o) g := by
  have not_ws (h : Option Head) : (maybe_headed (w.conns j) h).is_ws = false := by
    cases h <;> exact ready.not_ws
  have not_file (h : Option Head) : (maybe_headed (w.conns j) h).kind ≠ .RESP_FILE := by
    have kind : (w.conns j).kind ≠ .RESP_FILE := fun file => ready.other ((ready.inv.kind j).mp file)
    cases h <;> exact kind
  cases t with
  | wait => exact fun _ => ⟨o, ready.inv, elsewhere_refl j w g o⟩
  | refuse h err keep => exact ends_refuse @on ready (not_ws h) err keep
  | body h => exact ends_next (kept_plain ready (not_file (some h)) (not_ws (some h))) fun o' inv' => on inv'
  | upgrade h =>
    simp only [take_turn]
    rw [ends_bind]
    refine ends_mono (ends_upgrade_response _) ?_
    rintro g' resp rfl
    cases resp with
    | none =>
      simp only [ends_bind]
      refine ends_mono (ends_respond_mem _ _ _ _ _) ?_
      rintro _ c' ⟨rfl, kind, is_ws⟩
      exact ends_answer @on (kept_plain ready kind (is_ws.trans (not_ws (some h))))
    | some resp =>
      have read := kept_plain ready (not_file (some h)) (not_ws (some h))
      refine ends_next read fun o' inv' => ?_
      have ready' : Ready (w.set j (maybe_headed (w.conns j) (some h))) g' o' j := by
        refine ⟨inv', fun own => ?_, by simpa using not_ws (some h)⟩
        exact not_file (some h) (by simpa using (inv'.kind j).mpr own)
      exact ends_upgrade @on ready' resp
  | dispatch h method path query body =>
    simp only [take_turn, call, ends_bind, ends_once]
    intro route
    refine ends_mono (ends_respond method path query route) ?_
    intro g' c' answered
    refine ends_answer @on fun met => ?_
    obtain ⟨is_ws, ⟨kind, rfl⟩ | ⟨kind, free, opened⟩⟩ := answered met
    · exact kept_plain (c := c'.consume _) ready kind (is_ws.trans (not_ws h)) met
    · exact kept_file (c := c'.consume _) ready kind (is_ws.trans (not_ws h)) free opened met

end

theorem turn_quiet (fresh : c.hdr_done = false) (empty : c.rx = []) : turn c = .wait := by
  simp [turn, fresh, empty, find_hdr_end, HTTP_RX_BUF]

/-- Requests, whatever they are, leave the handle with its owner. -/
theorem ends_http_process_rx (fuel : Nat) {w : Web} {g : Handle} {o : Option Slot} (inv : Inv w g o) :
    (http_process_rx fuel j w).Ends @followed (Kept j w g o) g := by
  induction fuel generalizing w g o with
  | zero => exact fun _ => ⟨o, inv, elsewhere_refl j w g o⟩
  | succ fuel ih =>
    rw [http_process_rx_turn, ends_ite]
    refine ⟨fun _ _ => ⟨o, inv, elsewhere_refl j w g o⟩, fun idle => ?_⟩
    have idle : (w.conns j).kind = .RESP_NONE := not_not.mp idle
    by_cases upgraded : (w.conns j).is_ws = true
    · obtain ⟨empty, fresh⟩ := inv.quiet j upgraded
      rw [turn_quiet fresh empty]
      exact fun _ => ⟨o, inv, elsewhere_refl j w g o⟩
    · refine ends_round @ih ⟨inv, fun own => ?_, by simpa using upgraded⟩ _
      have file := (inv.kind j).mpr own
      simp [idle] at file

/-- There is room for the segment if its connection downloads. -/
def Fits (w : Web) : Event → Prop
  | .recv i (some p) => (w.conns i).kind = .RESP_FILE → p.length ≤ HTTP_RX_BUF - 1 - (w.conns i).rx.length
  | _ => True

instance (w : Web) : ∀ e, Decidable (Fits w e)
  | .recv i (some p) =>
    inferInstanceAs (Decidable ((w.conns i).kind = .RESP_FILE → p.length ≤ HTTP_RX_BUF - 1 - (w.conns i).rx.length))
  | .recv _ none => isTrue trivial
  | .accept => isTrue trivial
  | .sent _ _ => isTrue trivial
  | .poll _ => isTrue trivial
  | .err _ => isTrue trivial
  | .fw_reply _ => isTrue trivial

/-- The connection that an event is for. -/
def target : Event → Option Slot
  | .recv i _ => some i
  | .sent i _ => some i
  | .poll i => some i
  | .err i => some i
  | _ => none

theorem ends_http_recv_cb (inv : Inv w g o) (p : Option (List UInt8)) (fits : Fits w (.recv j p)) :
    (http_recv_cb fuel j p w).Ends @followed (Kept j w g o) g := by
  have stays : Kept j w g o g w := fun _ => ⟨o, inv, elsewhere_refl j w g o⟩
  unfold http_recv_cb
  cases p with
  | none => exact ends_conn_close.mpr (kept_closed inv)
  | some p =>
    simp only [ends_ite]
    refine ⟨fun _ => stays, fun _ => ⟨fun _ => ?_, fun not_ws => ?_⟩⟩
    · refine ends_mono (ends_ws_feed p (plain_of_inv inv)) ?_
      rintro _ w' ⟨rfl, fed⟩
      exact kept_fed inv fed
    · have not_ws : (w.conns j).is_ws = false := by simpa using not_ws
      refine ⟨fun large => ?_, fun _ => ?_⟩
      · refine ends_refuse (ends_http_process_rx fuel) ⟨inv, fun own => ?_, not_ws⟩ not_ws _ _
        have small := fits ((inv.kind j).mpr own)
        omega
      · simp only [call, ends_bind, ends_once]
        intro now
        have received : Kept j w g o g (w.set j { w.conns j with rx := (w.conns j).rx ++ p, tail := [], t_rx := now }) :=
          fun _ => ⟨o, inv_alike inv ⟨rfl, rfl, by simp [not_ws]⟩, elsewhere_set _⟩
        exact ends_next received fun o' inv' => ends_http_process_rx fuel inv'

theorem ends_http_sent_cb (inv : Inv w g o) (len : Nat) :
    (http_sent_cb fuel j len w).Ends @followed (Kept j w g o) g := by
  unfold http_sent_cb
  simp only [call, ends_ite, ends_bind, ends_once, ends_pure]
  refine ⟨fun _ _ => ⟨o, inv, elsewhere_refl j w g o⟩, fun _ now => ?_⟩
  have acked : Kept j w g o g (w.set j { w.conns j with acked := (w.conns j).acked + len, t_ack := now }) :=
    fun _ => ⟨o, inv_alike inv ⟨rfl, rfl, fun _ => ⟨rfl, rfl⟩⟩, elsewhere_set _⟩
  exact ⟨fun _ => acked, fun _ => ends_next acked fun o' inv' => ends_conn_pump (ends_http_process_rx fuel) inv'⟩

theorem ends_http_poll_cb (inv : Inv w g o) : (http_poll_cb j w).Ends @followed (Kept j w g o) g := by
  have stays : Kept j w g o g w := fun _ => ⟨o, inv, elsewhere_refl j w g o⟩
  have closes := kept_closed (j := j) inv
  unfold http_poll_cb
  simp only [call, ends_bind, ends_once, ends_ite, ends_pure, ends_conn_close]
  intro now
  refine ⟨fun _ => stays, fun _ => ⟨fun _ => ?_, fun _ => ⟨fun _ => ⟨fun _ => closes, fun _ => stays⟩, fun _ =>
    ⟨fun _ => ⟨fun _ => closes, fun _ => stays⟩, fun _ => ⟨fun _ => closes, fun _ => stays⟩⟩⟩⟩⟩
  refine ends_mono ends_ws_poll ?_
  rintro _ w' ⟨rfl, fed⟩
  exact kept_fed inv fed

theorem inv_accepted {os : Option Slot} (inv : Inv w g o) (owned : WsStream.Owned w os) (free : (w.conns i).pcb = false)
    (now : UInt32) : Inv (w.set i ((w.conns i).fresh now)) g o ∧ o ≠ some i := by
  have idle : (w.conns i).kind = .RESP_NONE := (owned.idle i free).2.2
  have other : o ≠ some i := by
    intro own
    have file := (inv.kind i).mpr own
    simp [idle] at file
  refine ⟨inv_set inv ?_ (fun _ _ => Iff.rfl) inv.fp ?_ ?_, other⟩
  · simp [Conn.fresh, idle, other]
  · intro own
    have live := (owned.live i (owned.conn.symm.trans own)).1
    simp [free] at live
  · simp [Conn.fresh]

/-- What any callback does, as long as the observer is content. -/
def Safe (e : Event) (w : Web) (g : Handle) (o : Option Slot) (g' : Handle) (w' : Web) : Prop :=
  g'.met = true → ∃ o', Inv w' g' o' ∧
    ∀ k, target e ≠ some k → o = some k → o' = some k ∧ g'.fp = g.fp ∧ w'.conns k = w.conns k

theorem safe_of_kept {e : Event} (for_j : target e = some j) (kept : Kept j w g o g' w') : Safe e w g o g' w' := by
  intro met
  obtain ⟨o', inv', elsewhere⟩ := kept met
  refine ⟨o', inv', fun k other own => elsewhere k ?_ own⟩
  rintro rfl
  exact other for_j

theorem ends_http_accept_cb {os : Option Slot} (inv : Inv w g o) (owned : WsStream.Owned w os) :
    (http_accept_cb w).Ends @followed (Safe .accept w g o) g := by
  unfold http_accept_cb
  split
  · exact fun _ _ => ⟨o, inv, fun k _ own => ⟨own, rfl, rfl⟩⟩
  · rename_i i found
    have free : (w.conns i).pcb = false := by simpa using List.find?_some found
    simp only [call, ends_bind, ends_once, ends_pure]
    intro now _ _
    obtain ⟨inv', other⟩ := inv_accepted inv owned free now
    refine ⟨o, inv', fun k _ own => ⟨own, rfl, set_conns_other ?_ _⟩⟩
    rintro rfl
    exact other own

theorem ends_callback {os : Option Slot} (inv : Inv w g o) (owned : WsStream.Owned w os) (e : Event) (fits : Fits w e) :
    (callback fuel e w).Ends @followed (Safe e w g o) g := by
  cases e with
  | accept => exact ends_http_accept_cb inv owned
  | recv j p => exact ends_mono (ends_http_recv_cb inv p fits) fun _ _ => safe_of_kept rfl
  | sent j len => exact ends_mono (ends_http_sent_cb inv len) fun _ _ => safe_of_kept rfl
  | poll j => exact ends_mono (ends_http_poll_cb inv) fun _ _ => safe_of_kept rfl
  | err j => exact ends_http_err_cb.mpr (safe_of_kept rfl (kept_closed inv))
  | fw_reply json =>
    unfold callback ws_fw_reply_cb
    exact ends_send_then fun _ => ⟨o, inv, fun k _ own => ⟨own, rfl, rfl⟩⟩

end

/-! ### Runs -/

/-- The server, what lies behind it, and the handle as it was observed. -/
structure Server (ω : Type) where
  web : Web := {}
  world : World ω
  handle : Handle := {}

section
variable {ω : Type} (b : Behind ω) (fuel : Nat)

def step (s : Server ω) (e : Event) : Server ω :=
  let done := (callback fuel e s.web).run (observed @followed (exec b)) (s.world, s.handle)
  { web := done.1, world := done.2.1, handle := done.2.2 }

/-- What holds between callbacks. -/
structure Sound (s : Server ω) : Prop where
  session : ∃ r, WsOutput.Good r s.web
  seen : s.world.web_fp = s.handle.fp
  owner : s.handle.met = true → ∃ o, Inv s.web s.handle o

variable {b fuel} {s : Server ω}

theorem step_session (sound : Sound s) (e : Event) : ∃ r, WsOutput.Good r (step b fuel s e).web := by
  obtain ⟨r, good⟩ := sound.session
  have kept := @run_ends _ _ _ (exec b) _ _ _ _ _ (WsOutput.ends_callback fuel good e) s.world
  have same : (step b fuel s e).web = ((callback fuel e s.web).run (exec b) s.world).1 := (run_observed _ _ _).1
  rw [(run_observed _ _ _).1, ← same] at kept
  exact ⟨_, kept⟩

theorem step_unmet (e : Event) (unmet : s.handle.met = false) : (step b fuel s e).handle.met = false :=
  run_ends (ends_unmet unmet (callback fuel e s.web)) s.world

theorem met_before {e : Event} (met : (step b fuel s e).handle.met = true) : s.handle.met = true := by
  cases before : s.handle.met with
  | true => rfl
  | false => simp [step_unmet e before] at met

theorem step_safe (sound : Sound s) {o : Option Slot} (inv : Inv s.web s.handle o) {e : Event} (fits : Fits s.web e) :
    Safe e s.web s.handle o (step b fuel s e).handle (step b fuel s e).web := by
  obtain ⟨r, os, owned⟩ := sound.session
  exact run_ends (ends_callback inv owned.toOwned e fits) s.world

theorem step_sound (sound : Sound s) (e : Event) (fits : Fits s.web e) : Sound (step b fuel s e) where
  session := step_session sound e
  seen := run_related (fun c s g same => exec_followed c s g same) (callback fuel e s.web) sound.seen
  owner := fun met => by
    obtain ⟨o, inv⟩ := sound.owner (met_before met)
    obtain ⟨o', inv', -⟩ := step_safe sound inv fits met
    exact ⟨o', inv'⟩

theorem sound_start (rest : ω) : Sound { world := { rest } : Server ω } where
  session := ⟨_, WsOutput.good_start⟩
  seen := rfl
  owner := fun _ => ⟨none, ⟨by simp, rfl, by simp, by simp⟩⟩

theorem sound_run (rest : ω) {events : List Event}
    (fits : Machine.Meets (step b fuel) (fun s e => Fits s.web e) { world := { rest } } events) :
    Sound (events.foldl (step b fuel) { world := { rest } }) :=
  @Machine.invariant _ _ _ _ Sound (fun _ e sound fits => step_sound sound e fits) _ (sound_start rest) _ fits

/-- A valid name can be opened whenever the handle is closed. -/
theorem history_web_open_free {s : World ω} (free : s.web_fp = none) {name : List UInt8} (mounted : b.mounted s.rest = true)
    (valid : history_web_name_valid name = true) :
    (history_web_open b name s).1 = (b.lfs_file_open name (b.hist_file_sync s.rest)).1 := by
  unfold history_web_open
  simp only [mounted, valid, free, not_true_eq_false, or_self, if_false, Option.isSome_none, Bool.false_eq_true]
  rcases b.lfs_file_open name (b.hist_file_sync s.rest) with ⟨_ | size, rest⟩ <;> rfl

variable (b fuel)

/-- In every run in which each request for a download finds the handle closed and no segment is
    too large for a connection that downloads, the handle is open iff exactly one connection is in
    `RESP_FILE`. So a callback for another connection leaves a running download and its place
    in the file alone, and once there is none, every file that can be opened can be downloaded. -/
theorem download_handle_owned (rest : ω) (events : List Event)
    (fits : Machine.Meets (step b fuel) (fun s e => Fits s.web e) { world := { rest } } events)
    (met : (events.foldl (step b fuel) { world := { rest } }).handle.met = true) :
    let s := events.foldl (step b fuel) { world := { rest } }
    (s.world.web_fp.isSome = true ↔ ∃! i, (s.web.conns i).kind = .RESP_FILE) ∧
      (∀ i e, (s.web.conns i).kind = .RESP_FILE → target e ≠ some i → Fits s.web e →
        (step b fuel s e).handle.met = true →
          (step b fuel s e).world.web_fp = s.world.web_fp ∧ (step b fuel s e).web.conns i = s.web.conns i) ∧
      ((∀ i, (s.web.conns i).kind ≠ .RESP_FILE) → ∀ name, b.mounted s.world.rest = true →
        history_web_name_valid name = true →
          (history_web_open b name s.world).1 = (b.lfs_file_open name (b.hist_file_sync s.world.rest)).1) := by
  intro s
  have sound : Sound s := sound_run rest fits
  obtain ⟨o, inv⟩ := sound.owner met
  refine ⟨?_, ?_, ?_⟩
  · rw [sound.seen, inv.fp, Option.isSome_iff_exists]
    simp only [inv.kind]
    constructor
    · rintro ⟨i, rfl⟩
      exact ⟨i, rfl, fun j same => (Option.some.inj same).symm⟩
    · rintro ⟨i, own, -⟩
      exact ⟨i, own⟩
  · intro i e file other fits' met'
    obtain ⟨o', -, elsewhere⟩ := step_safe sound inv fits' met'
    obtain ⟨-, fp, conn⟩ := elsewhere i other ((inv.kind i).mp file)
    exact ⟨(step_sound sound e fits').seen.trans (fp.trans sound.seen.symm), conn⟩
  · intro none_file name mounted valid
    have nobody : o = none := by
      cases owner : o with
      | none => rfl
      | some i => exact absurd ((inv.kind i).mpr owner) (none_file i)
    have free : s.world.web_fp = none := by
      have closed := inv.fp
      rw [nobody, ← sound.seen] at closed
      simpa using closed
    exact history_web_open_free free mounted valid

end

/-- A file system with one file of three bytes, and a stack that has room for everything. -/
def shelf : Behind Unit where
  mounted := fun _ => true
  hist_file_sync := id
  lfs_file_open := fun name s => (if name = ascii "data_1" then some 3 else none, s)
  page := fun _ _ _ _ s => (([], [], [], []), s)
  answer := fun {β} c s =>
    match β, c with
    | _, .history_web_read size => (some (List.replicate size 65), s)
    | _, c => WsOutput.roomy c s

def download_request : List UInt8 := ascii "GET /api/history/download?name=data_1 HTTP/1.1\r\n\r\n"

def shelf_run (events : List Event) : Server Unit := events.foldl (step shelf 3) { world := { rest := () } }

/-- While a connection downloads, the handle is its own. -/
theorem download_handle_owned_running :
    (shelf_run [.accept, .accept, .recv 0 (some download_request)]).world.web_fp.isSome = true ∧
      ∃! i, ((shelf_run [.accept, .accept, .recv 0 (some download_request)]).web.conns i).kind = .RESP_FILE := by
  have fits : Machine.Meets (step shelf 3) (fun s e => Fits s.web e) { world := { rest := () } }
      [.accept, .accept, .recv 0 (some download_request)] := by decide
  obtain ⟨met, opened⟩ : (shelf_run [.accept, .accept, .recv 0 (some download_request)]).handle.met = true ∧
      (shelf_run [.accept, .accept, .recv 0 (some download_request)]).world.web_fp.isSome = true := by decide +kernel
  exact ⟨opened, (download_handle_owned shelf 3 () _ fits met).1.mp opened⟩

def nameless_request : List UInt8 := ascii "GET /api/history/download HTTP/1.1\r\n\r\n"

/-- A request without a name closes the file of the other connection's download, and a segment
    that is too large closes a connection that downloads but not its file. -/
theorem download_handle_lost :
    ¬ ((shelf_run [.accept, .accept, .recv 0 (some download_request), .recv 1 (some nameless_request)]).world.web_fp.isSome =
        true ↔
      ∃! i, ((shelf_run [.accept, .accept, .recv 0 (some download_request), .recv 1 (some nameless_request)]).web.conns i).kind =
        .RESP_FILE) ∧
    ¬ ((shelf_run [.accept, .accept, .recv 0 (some download_request),
          .recv 0 (some (List.replicate 640 65))]).world.web_fp.isSome = true ↔
      ∃! i, ((shelf_run [.accept, .accept, .recv 0 (some download_request),
          .recv 0 (some (List.replicate 640 65))]).web.conns i).kind = .RESP_FILE) := by
  obtain ⟨shut, running⟩ : (shelf_run [.accept, .accept, .recv 0 (some download_request),
        .recv 1 (some nameless_request)]).world.web_fp.isSome = false ∧
      ∀ i, ((shelf_run [.accept, .accept, .recv 0 (some download_request),
        .recv 1 (some nameless_request)]).web.conns i).kind = .RESP_FILE ↔ i = 0 := by decide +kernel
  obtain ⟨leaked, idle⟩ : (shelf_run [.accept, .accept, .recv 0 (some download_request),
        .recv 0 (some (List.replicate 640 65))]).world.web_fp.isSome = true ∧
      ∀ i, ((shelf_run [.accept, .accept, .recv 0 (some download_request),
        .recv 0 (some (List.replicate 640 65))]).web.conns i).kind ≠ .RESP_FILE := by decide +kernel
  constructor
  · simp [shut, running]
  · intro owned
    obtain ⟨i, file, -⟩ := owned.mp leaked
    exact idle i file

end IoEdgeHub.Downloads
