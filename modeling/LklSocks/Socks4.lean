import LklSocks.Machine.ByteOrder

/-!
# The SOCKS4 wire format

The request header and the response are eight-byte structures that `SocksConnection` reads and
writes as raw memory, so their port and address go through the byte order of the machine. The
header read from the bytes `b₀ … b₇` and converted to host order gives the port `256 b₂ + b₃` and
the address `b₄.b₅.b₆.b₇`, and the response to it repeats `b₂ … b₇`, in either byte order.

## Main definitions

* `Socks4Request`, `Socks4Request.load`, `Socks4Request.toHost`: the header in memory
* `Socks4Response`, `Socks4Response.store`, `Socks4Request.response`: the response
* `Socks4Request.endpoint`: the endpoint of the connect
* `IsConnectRequest`: a complete CONNECT request, as the protocol defines it

## Main results

* `toHost_load_endpoint`: the endpoint is the one the request names
* `store_response_load`: the response repeats the port and the address of the request
* `isConnectRequest_iff`: completeness by fields
-/

namespace LklSocks

/-- The versions of a request (`SocksRequestVersion`). -/
inductive SocksRequestVersion
  | requestSocks4
  deriving DecidableEq, Repr

def SocksRequestVersion.toByte : SocksRequestVersion → UInt8
  | requestSocks4 => 4

/-- The versions of a response (`SocksReplyVersion`). -/
inductive SocksReplyVersion
  | replySocks4
  deriving DecidableEq, Repr

def SocksReplyVersion.toByte : SocksReplyVersion → UInt8
  | replySocks4 => 0

/-- The commands of a request. -/
inductive Socks4Command
  | connect
  | bind
  deriving DecidableEq, Repr

def Socks4Command.toByte : Socks4Command → UInt8
  | connect => 1
  | bind => 2

/-- The result codes of a response. -/
inductive Socks4Reply
  | success
  | failed
  | identdFailed
  | identdInvalid
  deriving DecidableEq, Repr

def Socks4Reply.toByte : Socks4Reply → UInt8
  | success => 90
  | failed => 91
  | identdFailed => 92
  | identdInvalid => 93

/-- An IPv4 endpoint, in host order. -/
structure Endpoint where
  address : UInt32
  port : UInt16
  deriving DecidableEq, Repr

/-- The request header. Its two enumerations have a fixed underlying type and are filled from
the wire, so they hold any byte. -/
structure Socks4Request where
  version : UInt8
  command : UInt8
  destinationPort : UInt16
  destinationAddress : UInt32
  deriving DecidableEq, Repr

/-- `sizeof(Socks4Request)`. -/
def Socks4Request.size : ℕ := 8

/-- The response. -/
structure Socks4Response where
  version : SocksReplyVersion
  command : Socks4Reply
  destinationPort : UInt16
  destinationAddress : UInt32
  deriving DecidableEq, Repr

/-- The endpoint that the protocol reads off the eight bytes of a header. -/
def Endpoint.ofHeader (bs : List UInt8) : Endpoint where
  address := .ofNat (256 ^ 3 * (bs.getD 4 0).toNat + 256 ^ 2 * (bs.getD 5 0).toNat +
    256 * (bs.getD 6 0).toNat + (bs.getD 7 0).toNat)
  port := .ofNat (256 * (bs.getD 2 0).toNat + (bs.getD 3 0).toNat)

/-! ## Conversions -/

/-- `ntohs`, which is also `htons`. -/
def ntohs (o : ByteOrder) (x : UInt16) : UInt16 := .ofNat (o.convert 2 x.toNat)

/-- `ntohl`, which is also `htonl`. -/
def ntohl (o : ByteOrder) (x : UInt32) : UInt32 := .ofNat (o.convert 4 x.toNat)

/-- `asio::read` into the memory of a request. -/
def Socks4Request.load (o : ByteOrder) (bs : List UInt8) : Socks4Request where
  version := bs.getD 0 0
  command := bs.getD 1 0
  destinationPort := .ofNat (o.load ((bs.drop 2).take 2))
  destinationAddress := .ofNat (o.load ((bs.drop 4).take 4))

/-- The two assignments of `handshake` after the reads. -/
def Socks4Request.toHost (o : ByteOrder) (r : Socks4Request) : Socks4Request :=
  { r with
    destinationPort := ntohs o r.destinationPort
    destinationAddress := ntohl o r.destinationAddress }

/-- The endpoint of a request in host order. -/
def Socks4Request.endpoint (r : Socks4Request) : Endpoint :=
  ⟨r.destinationAddress, r.destinationPort⟩

/-- The response of `handshake` to a request in host order. -/
def Socks4Request.response (o : ByteOrder) (code : Socks4Reply) (r : Socks4Request) :
    Socks4Response where
  version := .replySocks4
  command := code
  destinationPort := ntohs o r.destinationPort
  destinationAddress := ntohl o r.destinationAddress

/-- The memory of a response. -/
def Socks4Response.store (o : ByteOrder) (r : Socks4Response) : List UInt8 :=
  r.version.toByte :: r.command.toByte ::
    (o.store 2 r.destinationPort.toNat ++ o.store 4 r.destinationAddress.toNat)

@[simp] theorem Socks4Response.length_store (o : ByteOrder) (r : Socks4Response) :
    (r.store o).length = 8 := by
  simp [store]

theorem ntohs_ofNat (o : ByteOrder) {x : ℕ} (hx : x < 256 ^ 2) :
    ntohs o (.ofNat x) = .ofNat (o.convert 2 x) := by
  have hx' : x < 2 ^ 16 := hx.trans_eq (by norm_num)
  rw [ntohs, UInt16.toNat_ofNat', Nat.mod_eq_of_lt hx']

theorem ntohl_ofNat (o : ByteOrder) {x : ℕ} (hx : x < 256 ^ 4) :
    ntohl o (.ofNat x) = .ofNat (o.convert 4 x) := by
  have hx' : x < 2 ^ 32 := hx.trans_eq (by norm_num)
  rw [ntohl, UInt32.toNat_ofNat', Nat.mod_eq_of_lt hx']

/-! ## The bytes of a header -/

section Header

variable (o : ByteOrder) (b₀ b₁ b₂ b₃ b₄ b₅ b₆ b₇ : UInt8) (rest : List UInt8)

/-- **The endpoint is the one the request names**: its port is `256 b₂ + b₃`, and its address is
`b₄.b₅.b₆.b₇`. -/
theorem toHost_load_endpoint :
    ((Socks4Request.load o (b₀ :: b₁ :: b₂ :: b₃ :: b₄ :: b₅ :: b₆ :: b₇ :: rest)).toHost
      o).endpoint =
        ⟨.ofNat (256 ^ 3 * b₄.toNat + 256 ^ 2 * b₅.toNat + 256 * b₆.toNat + b₇.toNat),
          .ofNat (256 * b₂.toNat + b₃.toNat)⟩ := by
  show (⟨ntohl o (.ofNat (o.load [b₄, b₅, b₆, b₇])), ntohs o (.ofNat (o.load [b₂, b₃]))⟩ :
    Endpoint) = _
  have h₂ : o.convert 2 (o.load [b₂, b₃]) = ByteOrder.big.load [b₂, b₃] :=
    ByteOrder.convert_load _ o rfl
  have h₄ : o.convert 4 (o.load [b₄, b₅, b₆, b₇]) = ByteOrder.big.load [b₄, b₅, b₆, b₇] :=
    ByteOrder.convert_load _ o rfl
  rw [ntohs_ofNat o (ByteOrder.load_lt _ o rfl), ntohl_ofNat o (ByteOrder.load_lt _ o rfl), h₂, h₄]
  have hport : ByteOrder.big.load [b₂, b₃] = 256 * b₂.toNat + b₃.toNat := by
    simp [ByteOrder.load, ByteOrder.arrange]
    omega
  have haddr : ByteOrder.big.load [b₄, b₅, b₆, b₇] =
      256 ^ 3 * b₄.toNat + 256 ^ 2 * b₅.toNat + 256 * b₆.toNat + b₇.toNat := by
    simp [ByteOrder.load, ByteOrder.arrange]
    omega
  rw [hport, haddr]

/-- **The response repeats the request**: its bytes are the reply version, the code, and the
bytes 2 to 7 of the header. -/
theorem store_response_load (code : Socks4Reply) :
    (((Socks4Request.load o (b₀ :: b₁ :: b₂ :: b₃ :: b₄ :: b₅ :: b₆ :: b₇ :: rest)).toHost
      o).response o code).store o = [0, code.toByte, b₂, b₃, b₄, b₅, b₆, b₇] := by
  have hp : o.load [b₂, b₃] < 256 ^ 2 := ByteOrder.load_lt _ o rfl
  have ha : o.load [b₄, b₅, b₆, b₇] < 256 ^ 4 := ByteOrder.load_lt _ o rfl
  have hp₂ := (o.convert_lt (o.convert_lt hp)).trans_eq (by norm_num : 256 ^ 2 = 2 ^ 16)
  have ha₂ := (o.convert_lt (o.convert_lt ha)).trans_eq (by norm_num : 256 ^ 4 = 2 ^ 32)
  show 0 :: code.toByte ::
      (o.store 2 (ntohs o (ntohs o (.ofNat (o.load [b₂, b₃])))).toNat ++
        o.store 4 (ntohl o (ntohl o (.ofNat (o.load [b₄, b₅, b₆, b₇])))).toNat) = _
  have hb₂ : o.store 2 (o.convert 2 (o.convert 2 (o.load [b₂, b₃]))) = [b₂, b₃] :=
    ByteOrder.store_convert_convert_load _ o rfl
  have hb₄ : o.store 4 (o.convert 4 (o.convert 4 (o.load [b₄, b₅, b₆, b₇]))) = [b₄, b₅, b₆, b₇] :=
    ByteOrder.store_convert_convert_load _ o rfl
  rw [ntohs_ofNat o hp, ntohs_ofNat o (o.convert_lt hp), ntohl_ofNat o ha,
    ntohl_ofNat o (o.convert_lt ha), UInt16.toNat_ofNat', UInt32.toNat_ofNat',
    Nat.mod_eq_of_lt hp₂, Nat.mod_eq_of_lt ha₂, hb₂, hb₄]
  rfl

end Header

theorem endpoint_load (o : ByteOrder) {header : List UInt8} (h : header.length = 8)
    (rest : List UInt8) :
    ((Socks4Request.load o header).toHost o).endpoint = Endpoint.ofHeader (header ++ rest) := by
  match header, h with
  | [b₀, b₁, b₂, b₃, b₄, b₅, b₆, b₇], _ => exact toHost_load_endpoint o b₀ b₁ b₂ b₃ b₄ b₅ b₆ b₇ []

theorem response_load (o : ByteOrder) {header : List UInt8} (h : header.length = 8)
    (code : Socks4Reply) :
    (((Socks4Request.load o header).toHost o).response o code).store o =
      [0, code.toByte] ++ header.drop 2 := by
  match header, h with
  | [b₀, b₁, b₂, b₃, b₄, b₅, b₆, b₇], _ =>
    exact store_response_load o b₀ b₁ b₂ b₃ b₄ b₅ b₆ b₇ [] code

/-! ## Complete requests -/

/-- The bytes are a complete CONNECT request of the protocol, maybe with more bytes after it:
version 4, command 1, port, address, and a user id with its zero byte. -/
def IsConnectRequest (bs : List UInt8) : Prop :=
  ∃ p₀ p₁ a₀ a₁ a₂ a₃ userId rest,
    bs = 4 :: 1 :: p₀ :: p₁ :: a₀ :: a₁ :: a₂ :: a₃ :: (userId ++ 0 :: rest) ∧ 0 ∉ userId

theorem isConnectRequest_iff (b₀ b₁ b₂ b₃ b₄ b₅ b₆ b₇ : UInt8) (rest : List UInt8) :
    IsConnectRequest (b₀ :: b₁ :: b₂ :: b₃ :: b₄ :: b₅ :: b₆ :: b₇ :: rest) ↔
      b₀ = SocksRequestVersion.requestSocks4.toByte ∧ b₁ = Socks4Command.connect.toByte ∧
        0 ∈ rest := by
  constructor
  · rintro ⟨p₀, p₁, a₀, a₁, a₂, a₃, userId, post, h, -⟩
    simp only [List.cons.injEq] at h
    obtain ⟨h₀, h₁, -, -, -, -, -, -, rfl⟩ := h
    exact ⟨h₀, h₁, by simp⟩
  · rintro ⟨rfl, rfl, h⟩
    obtain ⟨userId, post, rfl, hn⟩ := List.eq_append_cons_of_mem h
    exact ⟨b₂, b₃, b₄, b₅, b₆, b₇, userId, post, rfl, hn⟩

theorem isConnectRequest_append {header : List UInt8} (h : header.length = 8)
    (rest : List UInt8) :
    IsConnectRequest (header ++ rest) ↔
      header.take 2 = [SocksRequestVersion.requestSocks4.toByte, Socks4Command.connect.toByte] ∧
        0 ∈ rest := by
  match header, h with
  | [b₀, b₁, b₂, b₃, b₄, b₅, b₆, b₇], _ =>
    have hiff := isConnectRequest_iff b₀ b₁ b₂ b₃ b₄ b₅ b₆ b₇ rest
    simpa [and_assoc] using hiff

theorem IsConnectRequest.length_le {bs : List UInt8} (h : IsConnectRequest bs) :
    9 ≤ bs.length := by
  obtain ⟨_, _, _, _, _, _, userId, rest, rfl, -⟩ := h
  simp
  omega

end LklSocks
