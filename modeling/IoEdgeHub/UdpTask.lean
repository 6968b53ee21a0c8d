import IoEdgeHub.Commands
import IoEdgeHub.FwUdp

/-!
The UDP service (`net/udp_task.c`): the callback for a datagram, with its filter on
the sender's subnet, the upgrade commands it queues for the worker of `fw/fw_udp.c`
and the commands it runs itself, and the reset that may follow a reply. Beside it,
the other events that reach the same state: the worker and the writes of registers.
-/
namespace IoEdgeHub.UdpTask
open IoEdgeHub.Nor IoEdgeHub.ConfigStore IoEdgeHub.Regmap IoEdgeHub.Commands IoEdgeHub.FwUpg IoEdgeHub.FwUdp

def UDP_CFG_PORT : Nat := 8600
def UDP_CFG_BCAST_PORT : Nat := UDP_CFG_PORT + 1

/-- The size of the buffer `rx`. -/
def RX_SIZE : Nat := 1408

/-- The size of the buffer `rep`. -/
def REP_SIZE : Nat := 64

def FW_Q_DEPTH : Nat := 8

/-- 255.255.255.255, to which a sender in another subnet is answered. -/
def bcast : Peer := ⟨0xFFFFFFFF, UDP_CFG_BCAST_PORT⟩

/-- What the build and the boot loader fix. -/
structure Build where
  version : FwVersion
  fw_keyhash : List UInt8
  boot_set_pending : Bool → Dev → Bool × Dev

/-- The initial value of the version register. -/
def Build.input_version (b : Build) : UInt16 :=
  (b.version.major.toUInt16 <<< 12) ||| (b.version.minor.toUInt16 <<< 8) ||| b.version.patch.toUInt16

/-- The device as far as the service reaches it; `netif` is the address of the
    interface. -/
structure Server where
  io : Io
  udp : UdpCfg
  fw_q : List FwMsg
  upg : Upg
  netif : UInt32
  udp_recv_calls : UInt32
  udp_recv_bytes : UInt32

/-- The three octets of a subnet as `same_subnet24` takes them from the registers. -/
def subnet24 (s : Io) : UInt32 :=
  ((get_holding_reg HOLDING_IP_OCTET1_IDX s).toUInt32 ||| (get_holding_reg HOLDING_IP_OCTET2_IDX s).toUInt32 <<< 8 |||
    (get_holding_reg HOLDING_IP_OCTET3_IDX s).toUInt32 <<< 16) &&& 0x00FFFFFF

/-- Addresses are in the byte order of lwIP: the first octet is the low byte. -/
def same_subnet24 (addr : Nat) (s : Io) : Bool := UInt32.ofNat addr &&& 0x00FFFFFF = subnet24 s

/-- The address the interface is brought up with. -/
def w5500_macraw_init (s : Io) : UInt32 :=
  (reg8 HOLDING_IP_OCTET1_IDX s).toUInt32 ||| (reg8 HOLDING_IP_OCTET2_IDX s).toUInt32 <<< 8 |||
    (reg8 HOLDING_IP_OCTET3_IDX s).toUInt32 <<< 16 ||| (reg8 HOLDING_IP_OCTET4_IDX s).toUInt32 <<< 24

/-- What leaves the service: a warning in the log, a datagram, a reply of the worker. -/
inductive Out
  | drop_cross_subnet (cmd : UInt8)
  | queue_full
  | udp_sendto (dst : Peer) (buf : List UInt8)
  | fw_reply (reply : FwReply)
  deriving DecidableEq, Repr

/-- The callback for a datagram; `now` is the tick count in milliseconds, `room` is
    whether there is a buffer for the reply. -/
def udp_cfg_recv (b : Build) (now : Nat) (room : Bool) (src : Peer) (payload : List UInt8) (s : Server) :
    List Out × Server :=
  let s := { s with udp_recv_calls := s.udp_recv_calls + 1 }
  match payload with
  | [] => ([], s)
  | cmd :: _ =>
    let s := { s with udp_recv_bytes := s.udp_recv_bytes + UInt32.ofNat payload.length }
    let same := same_subnet24 src.addr s.io
    if !same && !udp_cmd_bcast_allowed cmd then ([.drop_cross_subnet cmd], s)
    else
      let rx := payload.take RX_SIZE
      match fw_udp_cmd rx src with
      | some m =>
        if s.fw_q.length < FW_Q_DEPTH then ([], { s with fw_q := s.fw_q ++ [m] }) else ([.queue_full], s)
      | none =>
        let r := udp_app_cmd b.version REP_SIZE now cmd (rx.drop 1) s.udp s.io
        let s := { s with udp := r.2.1, io := r.2.2 }
        if r.1 = [] then ([], s)
        else if !room then ([], s)
        else
          let out := [Out.udp_sendto (if same then src else bcast) r.1]
          if udp_cfg_reboot_pending s.udp then (out, { s with io := io_reboot_cold (history_sync s.io) })
          else (out, s)

/-- The worker takes the oldest command. -/
def fw_work (b : Build) (s : Server) : List Out × Server :=
  match s.fw_q with
  | [] => ([], s)
  | m :: rest =>
    let r := (fw_task m).run (exec b.fw_keyhash b.boot_set_pending) s.upg
    ([.fw_reply r.1], { s with fw_q := rest, upg := r.2 })

/-- What happens to the device. Modbus and web writes of several registers are that
    many events. -/
inductive Event
  | udp_cfg_recv (now : Nat) (room : Bool) (src : Peer) (payload : List UInt8)
  | fw_task
  | io_write_holding (addr : Nat) (reg : UInt16)
  | io_write_do_bit (bit : Nat) (state : Bool)
  | web_cmd_exec_reg (addr value : Int)
  | tick

/-- One event, up to the reset it may end in. -/
def handle (b : Build) (s : Server) : Event → List Out × Server
  | .udp_cfg_recv now room src payload => udp_cfg_recv b now room src payload s
  | .fw_task => fw_work b s
  | .io_write_holding addr reg => ([], { s with io := (io_write_holding addr reg s.io).getD s.io })
  | .io_write_do_bit bit state => ([], { s with io := (io_write_do_bit bit state s.io).getD s.io })
  | .web_cmd_exec_reg addr value => ([], { s with io := (web_cmd_exec_reg addr value s.io).getD s.io })
  | .tick => ([], { s with io := { s.io with epoch_cache := s.io.epoch_cache + 1 } })

/-- The device after a reset: the flash and the clock are as they were. -/
def restart (b : Build) (s : Server) : Server :=
  let io := boot_task b.input_version s.io.epoch_cache s.io.rtc_ready s.io.store
  { io := io, udp := {}, fw_q := [], upg := ⟨Session.zero, s.upg.dev⟩, netif := w5500_macraw_init io,
    udp_recv_calls := 0, udp_recv_bytes := 0 }

/-- One event, with the reset when it called for one. -/
def step (b : Build) (s : Server) (e : Event) : List Out × Server :=
  let r := handle b s e
  if .io_reboot_cold ∈ r.2.io.hooks then (r.1, restart b r.2) else r

end IoEdgeHub.UdpTask
