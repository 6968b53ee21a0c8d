import IoEdgeHub.Machine
import IoEdgeHub.Persistence
import IoEdgeHub.UdpTask

/-!
Who may configure the device over UDP. The filter of `udp_cfg_recv` takes the subnet
from the address registers as they are, while the interface keeps the address it was
brought up with: the two stay the same exactly as long as no write of the registers
takes them apart (`access_by_running_address`, `locked_out`).

Whoever the filter takes for an outsider has no influence: with the datagrams of
outsiders left out of a run, the device ends in the same state and gives everyone
else the same answers (`outsiders_without_influence`).
-/
namespace IoEdgeHub.UdpAccess
open IoEdgeHub.Regmap IoEdgeHub.Commands IoEdgeHub.FwUdp IoEdgeHub.UdpTask IoEdgeHub.Machine IoEdgeHub.FwUpg
open IoEdgeHub.Persistence hiding step

/-- Three octets as the low bytes of an address. -/
def octets24 (a b c : UInt8) : UInt32 := a.toUInt32 ||| b.toUInt32 <<< 8 ||| c.toUInt32 <<< 16

/-- The subnet of an address. -/
def net24 (addr : UInt32) : UInt32 := addr &&& 0x00FFFFFF

theorem subnet24_congr {s s' : Io} (same : address s' = address s) : subnet24 s' = subnet24 s := by
  have word (i : Fin 4) : (address s').get i = (address s).get i := by rw [same]
  have octet1 : get_holding_reg HOLDING_IP_OCTET1_IDX s' = get_holding_reg HOLDING_IP_OCTET1_IDX s := word 0
  have octet2 : get_holding_reg HOLDING_IP_OCTET2_IDX s' = get_holding_reg HOLDING_IP_OCTET2_IDX s := word 1
  have octet3 : get_holding_reg HOLDING_IP_OCTET3_IDX s' = get_holding_reg HOLDING_IP_OCTET3_IDX s := word 2
  rw [subnet24, subnet24, octet1, octet2, octet3]

private theorem or_shiftLeft {x k : Nat} (low : x < 2^k) (y : Nat) : x ||| y <<< k = x + 2^k * y := by
  rw [Nat.or_comm, ← Nat.shiftLeft_add_eq_or_of_lt low, Nat.shiftLeft_eq, Nat.mul_comm, Nat.add_comm]

theorem octets24_toNat (a b c : UInt8) : (octets24 a b c).toNat = a.toNat + 256 * b.toNat + 65536 * c.toNat := by
  have first := a.toNat_lt
  have second := b.toNat_lt
  have third := c.toNat_lt
  have shift8 : b.toNat <<< 8 % 2^32 = b.toNat <<< 8 := Nat.mod_eq_of_lt (by rw [Nat.shiftLeft_eq]; omega)
  have shift16 : c.toNat <<< 16 % 2^32 = c.toNat <<< 16 := Nat.mod_eq_of_lt (by rw [Nat.shiftLeft_eq]; omega)
  have bits : (octets24 a b c).toNat = a.toNat ||| b.toNat <<< 8 ||| c.toNat <<< 16 := by
    rw [octets24, UInt32.toNat_or, UInt32.toNat_or, UInt32.toNat_shiftLeft, UInt32.toNat_shiftLeft, UInt8.toNat_toUInt32,
      UInt8.toNat_toUInt32, UInt8.toNat_toUInt32]
    exact congrArg₂ _ (congrArg₂ _ rfl shift8) shift16
  have pair : a.toNat ||| b.toNat <<< 8 = a.toNat + 2^8 * b.toNat := or_shiftLeft first _
  rw [bits, pair, or_shiftLeft (by omega)]
  omega

theorem net24_toNat (addr : UInt32) : (net24 addr).toNat = addr.toNat % 2^24 := by
  rw [net24, UInt32.toNat_and]
  exact Nat.and_two_pow_sub_one_eq_mod addr.toNat 24

theorem net24_octets24 (a b c : UInt8) : net24 (octets24 a b c) = octets24 a b c := by
  have first := a.toNat_lt
  have second := b.toNat_lt
  have third := c.toNat_lt
  apply UInt32.toNat_inj.mp
  rw [net24_toNat, octets24_toNat, Nat.mod_eq_of_lt (by omega)]

/-- The interface is in the subnet of the low bytes of the registers. -/
theorem net24_macraw (s : Io) :
    net24 (w5500_macraw_init s) =
      octets24 (reg8 HOLDING_IP_OCTET1_IDX s) (reg8 HOLDING_IP_OCTET2_IDX s) (reg8 HOLDING_IP_OCTET3_IDX s) := by
  obtain ⟨low, low_⟩ : ∃ low, low =
    octets24 (reg8 HOLDING_IP_OCTET1_IDX s) (reg8 HOLDING_IP_OCTET2_IDX s) (reg8 HOLDING_IP_OCTET3_IDX s) := ⟨_, rfl⟩
  obtain ⟨last, last_⟩ : ∃ last, last = reg8 HOLDING_IP_OCTET4_IDX s := ⟨_, rfl⟩
  have whole : w5500_macraw_init s = low ||| last.toUInt32 <<< 24 := by rw [low_, last_]; rfl
  have small : low.toNat < 2^24 := by
    rw [low_, ← net24_octets24, net24_toNat]
    exact Nat.mod_lt _ (by decide)
  have fits : last.toNat <<< 24 % 2^32 = last.toNat <<< 24 := by
    have octet := last.toNat_lt
    exact Nat.mod_eq_of_lt (by rw [Nat.shiftLeft_eq]; omega)
  have shift : (last.toUInt32 <<< 24).toNat = last.toNat <<< 24 := by
    rw [UInt32.toNat_shiftLeft, UInt8.toNat_toUInt32]
    exact fits
  rw [← low_, whole]
  apply UInt32.toNat_inj.mp
  rw [net24_toNat, UInt32.toNat_or, shift, or_shiftLeft small, Nat.add_mul_mod_self_left, Nat.mod_eq_of_lt small]

/-- No high byte of a register runs over into the next octet. -/
def Plain (s : Io) : Prop :=
  subnet24 s = octets24 (reg8 HOLDING_IP_OCTET1_IDX s) (reg8 HOLDING_IP_OCTET2_IDX s) (reg8 HOLDING_IP_OCTET3_IDX s)

theorem plain_of_octets {s : Io} (octets : Octets (address s)) : Plain s := by
  have low {r : UInt16} (octet : r ≤ 255) : r.toUInt32 = r.toUInt8.toUInt32 := by
    apply UInt32.toNat_inj.mp
    have small : r.toNat ≤ 255 := octet
    rw [UInt16.toNat_toUInt32, UInt8.toNat_toUInt32, UInt16.toNat_toUInt8, Nat.mod_eq_of_lt (by omega)]
  have octet1 : get_holding_reg HOLDING_IP_OCTET1_IDX s ≤ 255 := octets 0
  have octet2 : get_holding_reg HOLDING_IP_OCTET2_IDX s ≤ 255 := octets 1
  have octet3 : get_holding_reg HOLDING_IP_OCTET3_IDX s ≤ 255 := octets 2
  have words : subnet24 s = net24 (octets24 (reg8 HOLDING_IP_OCTET1_IDX s) (reg8 HOLDING_IP_OCTET2_IDX s)
      (reg8 HOLDING_IP_OCTET3_IDX s)) := by
    rw [subnet24, low octet1, low octet2, low octet3]
    rfl
  rw [Plain, words, net24_octets24]

theorem address_of_regs {s s' : Io} (same : s'.holding_reg = s.holding_reg) : address s' = address s :=
  address_congr fun a _ => get_holding_reg_congr same a

/-- The address registers after a command. -/
theorem udp_app_cmd_address (v : FwVersion) (cap now : Nat) (cmd : UInt8) (data : List UInt8) (u : UdpCfg) (s : Io) :
    address (udp_app_cmd v cap now cmd data u s).2.2 =
      if cmd = UDP_CMD_SET_IP ∧ carries_address data = true then
        #v[(data.getD 0 0).toUInt16, (data.getD 1 0).toUInt16, (data.getD 2 0).toUInt16, (data.getD 3 0).toUInt16]
      else address s := by
  unfold udp_app_cmd
  by_cases set_ip : cmd = UDP_CMD_SET_IP
  · rw [if_pos set_ip]
    by_cases carries : data.length ≥ 4 ∧ ip_addr_valid (data.getD 0 0) (data.getD 1 0) (data.getD 2 0) (data.getD 3 0) = true
    · rw [if_pos carries, if_pos ⟨set_ip, decide_eq_true carries⟩]
      exact (holding_reg_save_address _).trans (address_updates _ _ _ _ _)
    · rw [if_neg carries, if_neg fun both => carries (of_decide_eq_true both.2)]
  have other : ¬ (cmd = UDP_CMD_SET_IP ∧ carries_address data = true) := fun both => set_ip both.1
  rw [if_neg set_ip, if_neg other]
  by_cases get_ip : cmd = UDP_CMD_GET_IP
  · rw [if_pos get_ip]
  rw [if_neg get_ip]
  by_cases set_modbus : cmd = UDP_CMD_SET_MODBUS
  · rw [if_pos set_modbus]
    split_ifs
    · simp only
      rw [holding_reg_save_address, update_eq (by decide), update_eq (by decide), address_put (by decide) (by decide),
        address_put (by decide) (by decide)]
    · rfl
  rw [if_neg set_modbus]
  by_cases set_time : cmd = UDP_CMD_SET_TIME
  · rw [if_neg (by rw [set_time]; decide), if_pos set_time]
    split_ifs
    · exact address_of_regs (set_timestamp_regs _ _)
    · rfl
  · rw [if_neg set_time]
    refine address_of_regs ?_
    unfold udp_factory_reset
    split_ifs <;> rfl

theorem io_write_holding_address {addr : Nat} {reg : UInt16} {s s' : Io} (written : io_write_holding addr reg s = some s') :
    address s' = address (s.put addr reg) := by
  have inside : addr < 18 := by
    by_contra outside
    have refused : addr ≥ MODBUS_HOLDING_REGISTER_NUMBERS := Nat.not_lt.mp outside
    rw [io_write_holding, if_pos refused] at written
    cases written
  refine address_congr fun a between => ?_
  have lasting : a ≠ HOLDING_CONFIG_SAVE_IDX ∧ a ≠ HOLDING_REBOOT_IDX := by
    simp only [HOLDING_CONFIG_SAVE_IDX, HOLDING_REBOOT_IDX]
    omega
  rw [io_write_holding_regs written lasting, get_holding_reg_put inside]

/-! ### Access by the running address -/

section
variable {b : Build} {s : Server}

/-- A write that leaves the subnet of the registers as it is. A command to set the
    address counts only from a sender the filter lets through. -/
def Within (s : Server) : Event → Prop
  | .udp_cfg_recv _ _ src payload =>
    let data := (payload.take RX_SIZE).drop 1
    payload.head? = some UDP_CMD_SET_IP → same_subnet24 src.addr s.io = true → carries_address data = true →
      octets24 (data.getD 0 0) (data.getD 1 0) (data.getD 2 0) = subnet24 s.io
  | .io_write_holding addr reg => subnet24 (s.io.put addr reg) = subnet24 s.io
  | .web_cmd_exec_reg addr value =>
    0 ≤ addr → 0 ≤ value → value ≤ 0xFFFF → subnet24 (s.io.put addr.toNat (UInt16.ofNat value.toNat)) = subnet24 s.io
  | .fw_task | .io_write_do_bit .. | .tick => True

/-- What a datagram that is not for the worker does to the registers. -/
theorem udp_cfg_recv_address (now : Nat) (room : Bool) (src : Peer) (payload : List UInt8) :
    (udp_cfg_recv b now room src payload s).2.netif = s.netif ∧
      (address (udp_cfg_recv b now room src payload s).2.io = address s.io ∨
        payload.head? = some UDP_CMD_SET_IP ∧ same_subnet24 src.addr s.io = true ∧
          carries_address ((payload.take RX_SIZE).drop 1) = true ∧
          address (udp_cfg_recv b now room src payload s).2.io =
            #v[(((payload.take RX_SIZE).drop 1).getD 0 0).toUInt16, (((payload.take RX_SIZE).drop 1).getD 1 0).toUInt16,
              (((payload.take RX_SIZE).drop 1).getD 2 0).toUInt16, (((payload.take RX_SIZE).drop 1).getD 3 0).toUInt16]) := by
  cases payload with
  | nil => exact ⟨rfl, .inl rfl⟩
  | cons cmd body =>
    obtain ⟨rx, rx_⟩ : ∃ rx, rx = (cmd :: body).take RX_SIZE := ⟨_, rfl⟩
    simp only [udp_cfg_recv, ← rx_, List.head?_cons, Option.some.injEq]
    by_cases dropped : (!same_subnet24 src.addr s.io && !udp_cmd_bcast_allowed cmd) = true
    · rw [if_pos dropped]
      exact ⟨rfl, .inl rfl⟩
    rw [if_neg dropped]
    cases fw_udp_cmd rx src with
    | some m =>
      simp only
      split_ifs <;> exact ⟨rfl, .inl rfl⟩
    | none =>
      simp only
      have regs := udp_app_cmd_address b.version REP_SIZE now cmd (rx.drop 1) s.udp s.io
      obtain ⟨r, r_⟩ : ∃ r, r = udp_app_cmd b.version REP_SIZE now cmd (rx.drop 1) s.udp s.io := ⟨_, rfl⟩
      rw [← r_] at regs ⊢
      have outcome : address r.2.2 = address s.io ∨ cmd = UDP_CMD_SET_IP ∧ same_subnet24 src.addr s.io = true ∧
          carries_address (rx.drop 1) = true ∧ address r.2.2 = #v[((rx.drop 1).getD 0 0).toUInt16,
            ((rx.drop 1).getD 1 0).toUInt16, ((rx.drop 1).getD 2 0).toUInt16, ((rx.drop 1).getD 3 0).toUInt16] := by
        by_cases set_ip : cmd = UDP_CMD_SET_IP ∧ carries_address (rx.drop 1) = true
        · rw [if_pos set_ip] at regs
          have inside : same_subnet24 src.addr s.io = true := by
            by_contra outside
            rw [Bool.not_eq_true] at outside
            rw [outside, set_ip.1] at dropped
            exact dropped rfl
          exact .inr ⟨set_ip.1, inside, set_ip.2, regs⟩
        · rw [if_neg set_ip] at regs
          exact .inl regs
      split_ifs <;> exact ⟨rfl, outcome⟩

theorem subnet24_of_octets {s : Io} {a b' c d : UInt8} (set : address s = #v[a.toUInt16, b'.toUInt16, c.toUInt16, d.toUInt16]) :
    subnet24 s = octets24 a b' c := by
  have word (i : Fin 4) : (address s).get i = (#v[a.toUInt16, b'.toUInt16, c.toUInt16, d.toUInt16]).get i := by rw [set]
  have octet1 : get_holding_reg HOLDING_IP_OCTET1_IDX s = a.toUInt16 := word 0
  have octet2 : get_holding_reg HOLDING_IP_OCTET2_IDX s = b'.toUInt16 := word 1
  have octet3 : get_holding_reg HOLDING_IP_OCTET3_IDX s = c.toUInt16 := word 2
  rw [subnet24, octet1, octet2, octet3, UInt8.toUInt32_toUInt16, UInt8.toUInt32_toUInt16, UInt8.toUInt32_toUInt16]
  exact net24_octets24 a b' c

theorem handle_subnet {e : Event} (within : Within s e) :
    (handle b s e).2.netif = s.netif ∧ subnet24 (handle b s e).2.io = subnet24 s.io := by
  cases e with
  | udp_cfg_recv now room src payload =>
    obtain ⟨netif, same | ⟨set_ip, inside, carries, set⟩⟩ := @udp_cfg_recv_address b s now room src payload
    · exact ⟨netif, subnet24_congr same⟩
    · exact ⟨netif, (subnet24_of_octets set).trans (within set_ip inside carries)⟩
  | fw_task =>
    simp only [handle, fw_work]
    split <;> exact ⟨rfl, rfl⟩
  | io_write_holding addr reg =>
    refine ⟨rfl, ?_⟩
    simp only [handle]
    cases written : io_write_holding addr reg s.io with
    | none => rfl
    | some s' => exact (subnet24_congr (io_write_holding_address written)).trans within
  | io_write_do_bit bit state =>
    refine ⟨rfl, ?_⟩
    simp only [handle, io_write_do_bit]
    split_ifs
    · rfl
    · exact subnet24_congr (address_put (by decide) (by decide) _ _)
  | web_cmd_exec_reg addr value =>
    refine ⟨rfl, ?_⟩
    simp only [handle]
    cases written : web_cmd_exec_reg addr value s.io with
    | none => rfl
    | some s' =>
      unfold web_cmd_exec_reg at written
      split_ifs at written with outside reboot asked
      · cases written
        rfl
      · cases written
        rfl
      · exact (subnet24_congr (io_write_holding_address written)).trans (within (by omega) (by omega) (by omega))
  | tick => exact ⟨rfl, rfl⟩

/-- The filter drops a command that is not on the whitelist exactly when the sender is outside. -/
theorem dropped_iff (now : Nat) (room : Bool) (src : Peer) {cmd : UInt8} (body : List UInt8)
    (guarded : udp_cmd_bcast_allowed cmd = false) :
    .drop_cross_subnet cmd ∈ (udp_cfg_recv b now room src (cmd :: body) s).1 ↔ same_subnet24 src.addr s.io = false := by
  simp only [udp_cfg_recv, guarded, Bool.not_false, Bool.and_true]
  cases inside : same_subnet24 src.addr s.io with
  | false => simp
  | true =>
    rw [if_neg (by decide)]
    refine iff_of_false ?_ nofun
    split
    · split_ifs <;> simp
    · split_ifs <;> simp

/-- The filter and the interface are of one subnet. -/
def Agrees (net : UInt32) (s : Server) : Prop := s.netif = net ∧ subnet24 s.io = net24 net

theorem agrees_start (netif : s.netif = w5500_macraw_init s.io) (plain : Plain s.io) : Agrees s.netif s := by
  refine ⟨rfl, ?_⟩
  rw [netif, net24_macraw]
  exact plain

theorem agrees_handle {net : UInt32} {e : Event} (agrees : Agrees net s) (within : Within s e) :
    Agrees net (handle b s e).2 := by
  obtain ⟨netif, subnet⟩ := @handle_subnet b s e within
  exact ⟨netif.trans agrees.1, subnet.trans agrees.2⟩

theorem same_subnet24_agrees {net : UInt32} (agrees : Agrees net s) (addr : Nat) :
    same_subnet24 addr s.io = decide (net24 (UInt32.ofNat addr) = net24 net) := by
  rw [same_subnet24, agrees.2]
  rfl

/-- A command to reset the device from a sender inside is answered, and the reset follows. -/
theorem reboot_accepted {src : Peer} (inside : same_subnet24 src.addr s.io = true) (now : Nat) :
    (udp_cfg_recv b now true src [UDP_CMD_REBOOT] s).1 = [.udp_sendto src [UDP_CMD_REBOOT, 1]] ∧
      .io_reboot_cold ∈ (udp_cfg_recv b now true src [UDP_CMD_REBOOT] s).2.io.hooks := by
  have run : udp_app_cmd b.version REP_SIZE now UDP_CMD_REBOOT [] s.udp s.io =
      ([UDP_CMD_REBOOT, 1], { s.udp with reboot_reboot_pending := true }, s.io) := rfl
  have rx : [UDP_CMD_REBOOT].take RX_SIZE = [UDP_CMD_REBOOT] := rfl
  have general : fw_udp_cmd [UDP_CMD_REBOOT] src = none := rfl
  have body : [UDP_CMD_REBOOT].drop 1 = [] := rfl
  have pending : udp_cfg_reboot_pending { s.udp with reboot_reboot_pending := true } = true := Bool.or_true _
  simp only [udp_cfg_recv, inside, rx, general, body, run, pending]
  exact ⟨rfl, List.mem_append_right _ (List.mem_singleton.mpr rfl)⟩

end

/-- Between two resets, after any events that leave the subnet of the registers as it is: a command that is
    not on the whitelist is dropped exactly when its sender is outside the /24 of the address the interface
    was brought up with; and whoever was let through at the start can still reset the device. -/
theorem access_by_running_address (b : Build) (s : Server) (netif : s.netif = w5500_macraw_init s.io) (plain : Plain s.io)
    (es : List Event) (meets : Meets (fun s e => (handle b s e).2) Within s es) :
    let s' := es.foldl (fun s e => (handle b s e).2) s
    (∀ now room src cmd body, udp_cmd_bcast_allowed cmd = false →
      (.drop_cross_subnet cmd ∈ (udp_cfg_recv b now room src (cmd :: body) s').1 ↔
        net24 (UInt32.ofNat src.addr) ≠ net24 (w5500_macraw_init s.io))) ∧
    ∀ now src, same_subnet24 src.addr s.io = true →
      (udp_cfg_recv b now true src [UDP_CMD_REBOOT] s').1 = [.udp_sendto src [UDP_CMD_REBOOT, 1]] ∧
        .io_reboot_cold ∈ (udp_cfg_recv b now true src [UDP_CMD_REBOOT] s').2.io.hooks := by
  intro s'
  have start : Agrees s.netif s := agrees_start netif plain
  have agrees : Agrees s.netif s' := invariant (fun _ _ agrees within => agrees_handle agrees within) start meets
  constructor
  · intro now room src cmd body guarded
    rw [dropped_iff now room src body guarded, same_subnet24_agrees agrees, netif, decide_eq_false_iff_not]
  · intro now src inside
    have still : same_subnet24 src.addr s'.io = true := by
      rw [same_subnet24_agrees agrees, ← same_subnet24_agrees start, inside]
    exact reboot_accepted still now

/-- A build whose boot loader takes every request. -/
def plain_build : Build := ⟨⟨1, 2, 3, #v[97, 98, 99, 100, 101, 102]⟩, smallHash, fun _ d => (true, d)⟩

/-- A device at its first boot, with the default address. -/
def first_boot : Server :=
  let io := boot_task plain_build.input_version 0 true (ConfigHistory.start ConfigHistory.erasedChip)
  ⟨io, {}, [], idle, w5500_macraw_init io, 0, 0⟩

/-- A host of the default subnet, 192.168.12.7. -/
def neighbour : Peer := ⟨7 * 2^24 + 12 * 2^16 + 168 * 2^8 + 192, 50000⟩

/-- The address is changed within the subnet, and the host that did it can still reset the device. -/
theorem access_by_running_address_neighbour :
    let s := (udp_cfg_recv plain_build 9000 true neighbour [UDP_CMD_SET_IP, 192, 168, 12, 177] first_boot).2
    .io_reboot_cold ∈ (udp_cfg_recv plain_build 9300 true neighbour [UDP_CMD_REBOOT] s).2.io.hooks :=
  ((access_by_running_address plain_build first_boot rfl (plain_of_octets (by decide))
    [.udp_cfg_recv 9000 true neighbour [UDP_CMD_SET_IP, 192, 168, 12, 177]]
    ⟨fun _ _ _ => by decide, trivial⟩).2 9300 neighbour (by decide)).2

/-- A host of the subnet the interface is in moves the device to another one, and can no longer reset it
    for the new address to take effect. -/
theorem locked_out :
    let s := (udp_cfg_recv plain_build 9000 true neighbour [UDP_CMD_SET_IP, 10, 0, 0, 5] first_boot).2
    first_boot.netif = w5500_macraw_init first_boot.io ∧ s.netif = first_boot.netif ∧
      net24 (UInt32.ofNat neighbour.addr) = net24 s.netif ∧
      (udp_cfg_recv plain_build 9000 true neighbour [UDP_CMD_SET_IP, 10, 0, 0, 5] first_boot).1 =
        [.udp_sendto neighbour [UDP_CMD_SET_IP, 1]] ∧
      (udp_cfg_recv plain_build 9300 true neighbour [UDP_CMD_REBOOT] s).1 = [.drop_cross_subnet UDP_CMD_REBOOT] := by
  decide

/-! ### Outsiders -/

/-- An octet of an address. -/
def octet (addr k : Nat) : Nat := addr % 2^32 / 256^k % 256

/-- The registers make an address, and another one is not in its /24. -/
def Outside (s : Io) (addr : Nat) : Prop :=
  Octets (address s) ∧ ¬ (octet addr 0 = (get_holding_reg HOLDING_IP_OCTET1_IDX s).toNat ∧
    octet addr 1 = (get_holding_reg HOLDING_IP_OCTET2_IDX s).toNat ∧
    octet addr 2 = (get_holding_reg HOLDING_IP_OCTET3_IDX s).toNat)

instance (s : Io) (addr : Nat) : Decidable (Outside s addr) := inferInstanceAs (Decidable (_ ∧ ¬ (_ ∧ _ ∧ _)))

/-- Neither has a reset been asked for, nor is it under way. -/
structure Up (s : Server) : Prop where
  quiet : udp_cfg_reboot_pending s.udp = false
  running : .io_reboot_cold ∉ s.io.hooks

/-- All of the state but the two counters of the callback. -/
def shown (s : Server) : Server := { s with udp_recv_calls := 0, udp_recv_bytes := 0 }

/-- An event, marked when it has been put in between the others; its outputs bear its mark. -/
def marked_step (b : Build) (s : Server) (e : Bool × Event) : List (Bool × Out) × Server :=
  ((step b s e.2).1.map fun o => (e.1, o), (step b s e.2).2)

/-- There is always a buffer for the reply, and the marked events are datagrams from outside the /24 of the
    registers at their arrival. -/
def Inserted (s : Server) (e : Bool × Event) : Prop :=
  (∀ now room src payload, e.2 = .udp_cfg_recv now room src payload → room = true) ∧
    (e.1 = true → ∃ now room src payload, e.2 = .udp_cfg_recv now room src payload ∧ Outside s.io src.addr)

section
variable {b : Build} {s : Server}

theorem outside_filtered {s : Io} {addr : Nat} (outside : Outside s addr) : same_subnet24 addr s = false := by
  obtain ⟨octets, apart⟩ := outside
  have low (i : Fin 4) : ((address s).get i).toUInt8.toNat = ((address s).get i).toNat := by
    have small : ((address s).get i).toNat ≤ 255 := octets i
    rw [UInt16.toNat_toUInt8, Nat.mod_eq_of_lt (by omega)]
  have octet1 : (reg8 HOLDING_IP_OCTET1_IDX s).toNat = (get_holding_reg HOLDING_IP_OCTET1_IDX s).toNat := low 0
  have octet2 : (reg8 HOLDING_IP_OCTET2_IDX s).toNat = (get_holding_reg HOLDING_IP_OCTET2_IDX s).toNat := low 1
  have octet3 : (reg8 HOLDING_IP_OCTET3_IDX s).toNat = (get_holding_reg HOLDING_IP_OCTET3_IDX s).toNat := low 2
  have bound1 := (reg8 HOLDING_IP_OCTET1_IDX s).toNat_lt
  have bound2 := (reg8 HOLDING_IP_OCTET2_IDX s).toNat_lt
  have bound3 := (reg8 HOLDING_IP_OCTET3_IDX s).toNat_lt
  refine decide_eq_false fun same => apart ?_
  have nets : net24 (UInt32.ofNat addr) = octets24 (reg8 HOLDING_IP_OCTET1_IDX s) (reg8 HOLDING_IP_OCTET2_IDX s)
    (reg8 HOLDING_IP_OCTET3_IDX s) := same.trans (plain_of_octets octets)
  have numbers := congrArg UInt32.toNat nets
  rw [net24_toNat, octets24_toNat, UInt32.toNat_ofNat', octet1, octet2, octet3] at numbers
  rw [octet1] at bound1
  rw [octet2] at bound2
  rw [octet3] at bound3
  simp only [octet]
  omega

/-- What a datagram from outside does: it is counted, and at most the address is told to everyone. -/
theorem outsider_recv {src : Peer} (outside : same_subnet24 src.addr s.io = false)
    (quiet : udp_cfg_reboot_pending s.udp = false) (now : Nat) (room : Bool) (payload : List UInt8) :
    shown (udp_cfg_recv b now room src payload s).2 = shown s ∧
      ∀ o ∈ (udp_cfg_recv b now room src payload s).1,
        (∃ cmd, o = .drop_cross_subnet cmd) ∨ ∃ a c d e, o = .udp_sendto bcast [UDP_CMD_GET_IP, a, c, d, e] := by
  cases payload with
  | nil => exact ⟨rfl, nofun⟩
  | cons cmd body =>
    simp only [udp_cfg_recv, outside]
    by_cases listed : udp_cmd_bcast_allowed cmd = true
    · have get_ip : cmd = UDP_CMD_GET_IP := of_decide_eq_true listed
      subst get_ip
      have general : fw_udp_cmd ((UDP_CMD_GET_IP :: body).take RX_SIZE) src = none := rfl
      have run (data : List UInt8) : udp_app_cmd b.version REP_SIZE now UDP_CMD_GET_IP data s.udp s.io =
        ([UDP_CMD_GET_IP, reg8 HOLDING_IP_OCTET1_IDX s.io, reg8 HOLDING_IP_OCTET2_IDX s.io, reg8 HOLDING_IP_OCTET3_IDX s.io,
          reg8 HOLDING_IP_OCTET4_IDX s.io], s.udp, s.io) := rfl
      simp only [listed, general, run, quiet]
      cases room with
      | false => exact ⟨rfl, nofun⟩
      | true =>
        refine ⟨rfl, fun o member => ?_⟩
        rw [List.mem_singleton.mp member]
        exact .inr ⟨_, _, _, _, rfl⟩
    · rw [Bool.not_eq_true] at listed
      rw [listed]
      refine ⟨rfl, fun o member => ?_⟩
      rw [List.mem_singleton.mp member]
      exact .inl ⟨cmd, rfl⟩

/-- A command that asks for a reset is answered. -/
theorem pending_answered {v : FwVersion} {now : Nat} {cmd : UInt8} {data : List UInt8} {u : UdpCfg} {s : Io}
    (quiet : udp_cfg_reboot_pending u = false)
    (pending : udp_cfg_reboot_pending (udp_app_cmd v REP_SIZE now cmd data u s).2.1 = true) :
    (udp_app_cmd v REP_SIZE now cmd data u s).1 ≠ [] := by
  have still {reply : List UInt8} {io : Io} (asked : udp_cfg_reboot_pending (reply, u, io).2.1 = true) : False := by
    rw [quiet] at asked
    cases asked
  unfold udp_app_cmd at pending ⊢
  by_cases set_ip : cmd = UDP_CMD_SET_IP
  · rw [if_pos set_ip] at pending
    split_ifs at pending <;> exact (still pending).elim
  rw [if_neg set_ip] at pending ⊢
  by_cases get_ip : cmd = UDP_CMD_GET_IP
  · rw [if_pos get_ip] at pending
    exact (still pending).elim
  rw [if_neg get_ip] at pending ⊢
  by_cases set_modbus : cmd = UDP_CMD_SET_MODBUS
  · rw [if_pos set_modbus] at pending
    split_ifs at pending <;> exact (still pending).elim
  rw [if_neg set_modbus] at pending ⊢
  by_cases get_modbus : cmd = UDP_CMD_GET_MODBUS
  · rw [if_pos get_modbus] at pending
    exact (still pending).elim
  rw [if_neg get_modbus] at pending ⊢
  by_cases set_time : cmd = UDP_CMD_SET_TIME
  · rw [if_pos set_time] at pending
    split_ifs at pending <;> exact (still pending).elim
  rw [if_neg set_time] at pending ⊢
  by_cases get_version : cmd = UDP_CMD_GET_VERSION
  · rw [if_pos get_version] at pending
    exact (still pending).elim
  rw [if_neg get_version] at pending ⊢
  by_cases reboot : cmd = UDP_CMD_REBOOT
  · rw [if_pos reboot]
    exact List.cons_ne_nil _ _
  rw [if_neg reboot] at pending ⊢
  by_cases factory_reset : cmd = UDP_CMD_FACTORY_RESET
  · rw [if_pos factory_reset, udp_factory_reset]
    split_ifs <;> exact List.cons_ne_nil _ _
  · rw [if_neg factory_reset] at pending
    exact (still pending).elim

/-- With a buffer for its reply, a datagram leaves no reset waiting that has not begun. -/
theorem recv_quiet (quiet : udp_cfg_reboot_pending s.udp = false) (now : Nat) (src : Peer) (payload : List UInt8)
    (running : .io_reboot_cold ∉ (udp_cfg_recv b now true src payload s).2.io.hooks) :
    udp_cfg_reboot_pending (udp_cfg_recv b now true src payload s).2.udp = false := by
  cases payload with
  | nil => exact quiet
  | cons cmd body =>
    obtain ⟨rx, rx_⟩ : ∃ rx, rx = (cmd :: body).take RX_SIZE := ⟨_, rfl⟩
    simp only [udp_cfg_recv, ← rx_] at running ⊢
    by_cases dropped : (!same_subnet24 src.addr s.io && !udp_cmd_bcast_allowed cmd) = true
    · rw [if_pos dropped]
      exact quiet
    rw [if_neg dropped] at running ⊢
    cases queued : fw_udp_cmd rx src with
    | some m =>
      simp only
      split_ifs <;> exact quiet
    | none =>
      simp only [queued] at running ⊢
      cases asked : udp_cfg_reboot_pending (udp_app_cmd b.version REP_SIZE now cmd (rx.drop 1) s.udp s.io).2.1 with
      | false => split_ifs <;> exact asked
      | true =>
        -- the reset has begun in this call
        have answered := pending_answered quiet asked
        rw [if_neg answered, if_neg (by decide), asked, if_pos rfl] at running
        exact absurd (List.mem_append_right _ (List.mem_singleton.mpr rfl)) running

theorem handle_quiet {e : Event} (quiet : udp_cfg_reboot_pending s.udp = false)
    (room : ∀ now room src payload, e = .udp_cfg_recv now room src payload → room = true)
    (running : .io_reboot_cold ∉ (handle b s e).2.io.hooks) : udp_cfg_reboot_pending (handle b s e).2.udp = false := by
  cases e with
  | udp_cfg_recv now room' src payload =>
    obtain rfl : room' = true := room now room' src payload rfl
    exact recv_quiet quiet now src payload running
  | fw_task =>
    simp only [handle, fw_work]
    split <;> exact quiet
  | io_write_holding addr reg => exact quiet
  | io_write_do_bit bit state => exact quiet
  | web_cmd_exec_reg addr value => exact quiet
  | tick => exact quiet

theorem up_restart (b : Build) (s : Server) : Up (restart b s) := by
  constructor
  · rfl
  · have load (regs : List (Nat × UInt16)) (io : Io) : (regs.foldl (fun s r => s.put r.1 r.2) io).hooks = io.hooks := by
      induction regs generalizing io with
      | nil => rfl
      | cons r rest ih => exact ih (io.put r.1 r.2)
    simp only [restart, boot_task, history_enable_write, call_hooks, put_hooks, holding_reg_load, load]
    simp

theorem up_step {e : Bool × Event} (up : Up s) (inserted : Inserted s e) : Up (marked_step b s e).2 := by
  simp only [marked_step, step]
  split_ifs with reset
  · exact up_restart b _
  · exact ⟨handle_quiet up.quiet inserted.1 reset, reset⟩

/-- A marked event leaves everything as it was, and only the address is told to everyone. -/
theorem inserted_silent {e : Bool × Event} (up : Up s) (mark : e.1 = true) (inserted : Inserted s e) :
    shown (marked_step b s e).2 = shown s ∧ ∀ o ∈ (marked_step b s e).1,
      (∃ cmd, o.2 = .drop_cross_subnet cmd) ∨ ∃ a c d e, o.2 = .udp_sendto bcast [UDP_CMD_GET_IP, a, c, d, e] := by
  obtain ⟨now, room, src, payload, datagram, outside⟩ := inserted.2 mark
  obtain ⟨same, answers⟩ := @outsider_recv b s src (outside_filtered outside) up.quiet now room payload
  have hooks : (handle b s e.2).2.io.hooks = s.io.hooks := by
    rw [datagram]
    exact congrArg (fun s => s.io.hooks) same
  have run : step b s e.2 = handle b s e.2 := by
    rw [step, hooks]
    exact if_neg up.running
  simp only [marked_step, run]
  rw [datagram]
  refine ⟨same, fun o member => ?_⟩
  obtain ⟨o', member', rfl⟩ := List.mem_map.mp member
  exact answers o' member'

/-- The counters play no part in what an event does. -/
theorem handle_shown (e : Event) :
    (handle b (shown s) e).1 = (handle b s e).1 ∧ shown (handle b (shown s) e).2 = shown (handle b s e).2 := by
  obtain ⟨io, udp, fw_q, upg, netif, calls, bytes⟩ := s
  have counters (io : Io) (udp : UdpCfg) (fw_q : List FwMsg) (upg : Upg) (netif calls bytes : UInt32) :
      shown ⟨io, udp, fw_q, upg, netif, calls, bytes⟩ = ⟨io, udp, fw_q, upg, netif, 0, 0⟩ := rfl
  rw [counters]
  cases e with
  | udp_cfg_recv now room src payload =>
    cases payload with
    | nil => exact ⟨rfl, rfl⟩
    | cons cmd body =>
      simp only [handle, udp_cfg_recv]
      by_cases dropped : (!same_subnet24 src.addr io && !udp_cmd_bcast_allowed cmd) = true
      · simp only [if_pos dropped, counters, and_self]
      simp only [if_neg dropped]
      cases fw_udp_cmd ((cmd :: body).take RX_SIZE) src with
      | some m =>
        simp only
        split_ifs <;> exact ⟨rfl, rfl⟩
      | none =>
        simp only
        split_ifs <;> exact ⟨rfl, rfl⟩
  | fw_task =>
    cases fw_q with
    | nil => exact ⟨rfl, rfl⟩
    | cons m rest => exact ⟨rfl, rfl⟩
  | io_write_holding addr reg => exact ⟨rfl, rfl⟩
  | io_write_do_bit bit state => exact ⟨rfl, rfl⟩
  | web_cmd_exec_reg addr value => exact ⟨rfl, rfl⟩
  | tick => exact ⟨rfl, rfl⟩

theorem restart_shown {s t : Server} (same : shown s = shown t) : restart b s = restart b t := by
  have io : s.io = t.io := show (shown s).io = (shown t).io from congrArg Server.io same
  have upg : s.upg = t.upg := show (shown s).upg = (shown t).upg from congrArg Server.upg same
  rw [restart, restart, io, upg]

theorem step_shown {t : Server} (same : shown s = shown t) (e : Event) :
    (step b s e).1 = (step b t e).1 ∧ shown (step b s e).2 = shown (step b t e).2 := by
  have outs : (handle b s e).1 = (handle b t e).1 := by rw [← (handle_shown e).1, same, (handle_shown e).1]
  have states : shown (handle b s e).2 = shown (handle b t e).2 := by rw [← (handle_shown e).2, same, (handle_shown e).2]
  have hooks : (handle b s e).2.io.hooks = (handle b t e).2.io.hooks := congrArg (fun s => s.io.hooks) states
  simp only [step, hooks]
  split_ifs
  · exact ⟨outs, congrArg shown (restart_shown states)⟩
  · exact ⟨outs, states⟩

end

/-- Datagrams from outside the /24 of the registers, put in anywhere between other events, change nothing: up
    to the two counters the device ends in the state it ends in without them, all other outputs are the same,
    and all that the outsiders get is broadcasts of the address. -/
theorem outsiders_without_influence (b : Build) (s : Server) (up : Up s) (es : List (Bool × Event))
    (meets : Meets (fun s e => (marked_step b s e).2) Inserted s es) :
    let run := trace (marked_step b) s es
    let without := trace (marked_step b) s (es.filter fun e => !e.1)
    shown run.2 = shown without.2 ∧ run.1.filter (fun o => !o.1) = without.1 ∧
      ∀ o ∈ run.1, o.1 = true →
        (∃ cmd, o.2 = .drop_cross_subnet cmd) ∨ ∃ a c d e, o.2 = .udp_sendto bcast [UDP_CMD_GET_IP, a, c, d, e] := by
  intro run without
  have keep : ∀ s e, Up s → Inserted s e → Up (marked_step b s e).2 := fun _ _ up inserted => up_step up inserted
  have marks (s : Server) (e : Bool × Event) : ∀ o ∈ (marked_step b s e).1, o.1 = e.1 := by
    intro o member
    obtain ⟨o', _, rfl⟩ := List.mem_map.mp member
    rfl
  have silent : ∀ s e, Up s → e.1 = true → Inserted s e →
      shown (marked_step b s e).2 = shown s ∧ ∀ o ∈ (marked_step b s e).1, (!o.1) = false := by
    intro s e up mark inserted
    refine ⟨(inserted_silent up mark inserted).1, fun o member => ?_⟩
    rw [marks s e o member, mark]
    rfl
  have consistent : ∀ s t e, e.1 = false → shown s = shown t →
      shown (marked_step b s e).2 = shown (marked_step b t e).2 ∧ (marked_step b s e).1 = (marked_step b t e).1 ∧
        ∀ o ∈ (marked_step b s e).1, (!o.1) = true := by
    intro s t e mark same
    obtain ⟨outs, states⟩ := @step_shown b s t same e.2
    refine ⟨states, congrArg (List.map fun o => (e.1, o)) outs, fun o member => ?_⟩
    rw [marks s e o member, mark]
    rfl
  obtain ⟨state, outs⟩ := hidden_removed keep silent consistent up rfl meets
  refine ⟨state, outs, ?_⟩
  refine trace_outputs keep (fun s e up inserted o member marked => ?_) up meets
  rw [marks s e o member] at marked
  exact (inserted_silent up marked inserted).2 o member

/-- A host of another subnet, 10.0.0.9. -/
def stranger : Peer := ⟨9 * 2^24 + 10, 40000⟩

/-- A stranger asks for a reset, the address and an upgrade, while a neighbour sets the clock: the device is
    where it would be without the stranger, which has been told the address. -/
theorem outsiders_without_influence_stranger :
    let es : List (Bool × Event) :=
      [(true, .udp_cfg_recv 9000 true stranger [UDP_CMD_REBOOT]),
        (false, .udp_cfg_recv 9100 true neighbour [UDP_CMD_SET_TIME, 0x60, 0, 0, 0]),
        (true, .udp_cfg_recv 9200 true stranger [UDP_CMD_GET_IP]),
        (true, .udp_cfg_recv 9300 true stranger [0x01, 0, 4, 0, 0])]
    let run := trace (marked_step plain_build) first_boot es
    shown run.2 = shown (trace (marked_step plain_build) first_boot (es.filter fun e => !e.1)).2 ∧
      run.1.filter (fun o => !o.1) = [(false, .udp_sendto neighbour [UDP_CMD_SET_TIME, 1])] ∧
      run.1.filter (fun o => o.1) = [(true, .drop_cross_subnet UDP_CMD_REBOOT),
        (true, .udp_sendto bcast [UDP_CMD_GET_IP, 192, 168, 12, 101]), (true, .drop_cross_subnet 0x01)] := by
  intro es run
  obtain ⟨state, outs, _⟩ := outsiders_without_influence plain_build first_boot ⟨rfl, by decide⟩ es
    ⟨⟨fun _ _ _ _ same => by cases same; rfl, fun _ => ⟨_, _, _, _, rfl, by decide⟩⟩,
      ⟨fun _ _ _ _ same => by cases same; rfl, nofun⟩,
      ⟨fun _ _ _ _ same => by cases same; rfl, fun _ => ⟨_, _, _, _, rfl, by decide⟩⟩,
      ⟨fun _ _ _ _ same => by cases same; rfl, fun _ => ⟨_, _, _, _, rfl, by decide⟩⟩, trivial⟩
  exact ⟨state, outs.trans (by decide), by decide⟩

end IoEdgeHub.UdpAccess
