import IoEdgeHub.Bytes
import IoEdgeHub.CStrings

/-!
WebSocket framing and handshake (`web/ws.c`): the machine that takes the bytes of the
client one at a time, the headers of the server's frames, and the answer to an upgrade
request with its SHA-1 and Base64.
-/
namespace IoEdgeHub.Ws
open IoEdgeHub.Bytes IoEdgeHub.CStrings

def WS_RX_MAX : Nat := 10 * 1024 + 16

inductive RxState | WS_HDR | WS_LEN16 | WS_LEN64 | WS_MASK | WS_PAYLOAD
deriving DecidableEq

/-- The receive machine. `hdr` and `mask` hold the bytes collected so far, `payload` those of
    the frame, without their mask. -/
structure Rx where
  state : RxState := .WS_HDR
  hdr : List UInt8 := []
  op : UInt8 := 0
  fin : Bool := false
  masked : Bool := false
  mask : List UInt8 := []
  plen : Nat := 0
  payload : List UInt8 := []
deriving DecidableEq

/-- What a byte leads to. -/
inductive RxEvent | next | close | frame_done
deriving DecidableEq

/-- The length is known: what comes next. -/
def Rx.sized (rx : Rx) (plen : Nat) : RxEvent × Rx :=
  if plen > WS_RX_MAX then (.close, { rx with plen })
  else (.next, { rx with plen, hdr := [], mask := [], state := if rx.masked then .WS_MASK else .WS_PAYLOAD })

def io_get_be64 (p : List UInt8) : Nat := io_get_be32 p * 2^32 + io_get_be32 (p.drop 4)

/-- One byte of the loop of `ws_feed`. -/
def ws_byte (rx : Rx) (b : UInt8) : RxEvent × Rx :=
  match rx.state with
  | .WS_HDR =>
    let hdr := rx.hdr ++ [b]
    if hdr.length < 2 then (.next, { rx with hdr })
    else
      let plen := byteAt hdr 1 % 128
      let rx := { rx with fin := byteAt hdr 0 ≥ 128, op := UInt8.ofNat (byteAt hdr 0 % 16), masked := byteAt hdr 1 ≥ 128,
                          plen, payload := [], hdr := [] }
      if plen = 126 then (.next, { rx with state := .WS_LEN16 })
      else if plen = 127 then (.next, { rx with state := .WS_LEN64 })
      else rx.sized plen
  | .WS_LEN16 =>
    let hdr := rx.hdr ++ [b]
    if hdr.length = 2 then rx.sized (io_get_be16 hdr) else (.next, { rx with hdr })
  | .WS_LEN64 =>
    let hdr := rx.hdr ++ [b]
    if hdr.length = 8 then rx.sized (io_get_be64 hdr) else (.next, { rx with hdr })
  | .WS_MASK =>
    let mask := rx.mask ++ [b]
    (.next, { rx with mask, state := if mask.length = 4 then .WS_PAYLOAD else .WS_MASK })
  | .WS_PAYLOAD =>
    if rx.payload.length ≥ WS_RX_MAX then (.close, rx)
    else
      let plain := if rx.masked then b ^^^ rx.mask.getD (rx.payload.length % 4) 0 else b
      let rx := { rx with payload := rx.payload ++ [plain] }
      (if rx.payload.length = rx.plen then .frame_done else .next, rx)

/-- The header of a frame, which the server does not mask. -/
def ws_header (opcode : UInt8) (len : Nat) : List UInt8 :=
  (0x80 ||| opcode) ::
    (if len < 126 then [UInt8.ofNat len]
     else if len ≤ 0xFFFF then 126 :: io_put_be16 len
     else 127 :: (List.range 8).map fun i => UInt8.ofNat (len / 2^(56 - 8 * i)))

structure Sha1 where
  h : List UInt32 := [0x67452301, 0xEFCDAB89, 0x98BADCFE, 0x10325476, 0xC3D2E1F0]
  total : UInt64 := 0
  buf : List UInt8 := []

def SHA_ROL (v n : UInt32) : UInt32 := (v <<< n) ||| (v >>> (32 - n))

/-- The words of a block, up to `count` more than there are. -/
def sha1_schedule : Nat → List UInt32 → List UInt32
  | 0, w => w
  | count + 1, w =>
    let at_back (k : Nat) := w.getD (w.length - k) 0
    sha1_schedule count (w ++ [SHA_ROL (at_back 3 ^^^ at_back 8 ^^^ at_back 14 ^^^ at_back 16) 1])

/-- The working variables of a block. -/
structure Sha1Vars where
  a : UInt32
  b : UInt32
  cc : UInt32
  d : UInt32
  e : UInt32

def sha1_round (v : Sha1Vars) (i : Nat) (w : UInt32) : Sha1Vars :=
  let (g, k) :=
    if i < 20 then ((v.b &&& v.cc) ||| (~~~v.b &&& v.d), (0x5A827999 : UInt32))
    else if i < 40 then (v.b ^^^ v.cc ^^^ v.d, 0x6ED9EBA1)
    else if i < 60 then ((v.b &&& v.cc) ||| (v.b &&& v.d) ||| (v.cc &&& v.d), 0x8F1BBCDC)
    else (v.b ^^^ v.cc ^^^ v.d, 0xCA62C1D6)
  { a := SHA_ROL v.a 5 + g + v.e + k + w, b := v.a, cc := SHA_ROL v.b 30, d := v.cc, e := v.d }

def sha1_block (h : List UInt32) (p : List UInt8) : List UInt32 :=
  let w := sha1_schedule 64 ((List.range 16).map fun i => UInt32.ofNat (io_get_be32 (p.drop (4 * i))))
  let v := w.zipIdx.foldl (fun v wi => sha1_round v wi.2 wi.1)
    ⟨h.getD 0 0, h.getD 1 0, h.getD 2 0, h.getD 3 0, h.getD 4 0⟩
  [h.getD 0 0 + v.a, h.getD 1 0 + v.b, h.getD 2 0 + v.cc, h.getD 3 0 + v.d, h.getD 4 0 + v.e]

/-- The loop of `sha1_update`: each round takes something. -/
def sha1_fill : Nat → Sha1 → List UInt8 → Sha1
  | 0, c, _ => c
  | fuel + 1, c, p =>
    if p = [] then c
    else
      let n := min (64 - c.buf.length) p.length
      let buf := c.buf ++ p.take n
      sha1_fill fuel (if buf.length = 64 then { c with h := sha1_block c.h buf, buf := [] } else { c with buf }) (p.drop n)

def sha1_update (c : Sha1) (p : List UInt8) : Sha1 :=
  sha1_fill p.length { c with total := c.total + UInt64.ofNat p.length } p

/-- Zeros until eight bytes of the block are left. -/
def sha1_pad : Nat → Sha1 → Sha1
  | 0, c => c
  | fuel + 1, c => if c.buf.length = 56 then c else sha1_pad fuel (sha1_update c [0])

def sha1_final (c : Sha1) : List UInt8 :=
  let bits := (c.total <<< 3).toNat
  let c := sha1_pad 64 (sha1_update c [0x80])
  let c := sha1_update c ((List.range 8).map fun i => UInt8.ofNat (bits / 2^(56 - 8 * i)))
  c.h.flatMap fun h => [UInt8.ofNat (h.toNat / 2^24), UInt8.ofNat (h.toNat / 2^16), UInt8.ofNat (h.toNat / 2^8), UInt8.ofNat h.toNat]

def b64_tab : List UInt8 := ascii "ABCDEFGHIJKLMNOPQRSTUVWXYZabcdefghijklmnopqrstuvwxyz0123456789+/"

def b64_digit (v shift : Nat) : UInt8 := b64_tab.getD (v / 2^shift % 64) 0

def b64_encode : List UInt8 → List UInt8
  | a :: b :: c :: src =>
    let v := a.toNat * 2^16 + b.toNat * 2^8 + c.toNat
    b64_digit v 18 :: b64_digit v 12 :: b64_digit v 6 :: b64_digit v 0 :: b64_encode src
  | [a, b] =>
    let v := a.toNat * 2^16 + b.toNat * 2^8
    [b64_digit v 18, b64_digit v 12, b64_digit v 6, 61]
  | [a] =>
    let v := a.toNat * 2^16
    [b64_digit v 18, b64_digit v 12, 61, 61]
  | [] => []

def tolower (c : UInt8) : UInt8 := if 65 ≤ c && c ≤ 90 then c + 32 else c

/-- Where the text after the first `key` begins, if it lies in the first `hdr_len` bytes; upper
    and lower case are the same. -/
def hdr_find (line : List UInt8) (hdr_len : Nat) (key : List UInt8) : Option Nat :=
  ((List.range (hdr_len - key.length)).find? fun i =>
    ((line.drop i).take key.length).map tolower = key.map tolower).map (· + key.length)

def ws_guid : List UInt8 := ascii "258EAFA5-E914-47DA-95CA-C5AB0DC85B11"

/-- Where the key of an upgrade request begins. -/
def ws_key (req : List UInt8) (hdr_len : Nat) : Option Nat :=
  (hdr_find req hdr_len (ascii "Sec-WebSocket-Key:")).map fun i => i + ((req.drop i).takeWhile (· = 32)).length

/-- The response header with an accept key. -/
def ws_response (accept : List UInt8) : List UInt8 :=
  ascii "HTTP/1.1 101 Switching Protocols\r\nUpgrade: websocket\r\nConnection: Upgrade\r\nSec-WebSocket-Accept: " ++
    accept ++ ascii "\r\n\r\n"

/-- The response to a key of 24 bytes, in a buffer of `resp_max`. -/
def ws_handshake (key : List UInt8) (resp_max : Nat) : Option (List UInt8) :=
  let accept := b64_encode (sha1_final (sha1_update (sha1_update {} key) ws_guid))
  if accept.length ≠ 28 then none
  else if (ws_response accept).length ≥ resp_max then none
  else some (ws_response accept)

/-- The example of the protocol's specification. -/
example : b64_encode (sha1_final (sha1_update (sha1_update {} (ascii "dGhlIHNhbXBsZSBub25jZQ==")) ws_guid)) =
    ascii "s3pPLMBiTxaQ9kYGzzhZRbK+xOo=" := by decide +kernel

end IoEdgeHub.Ws
