import Hsim.Configurations

/-! The cost of a tensor-sized transfer, `DramMacroModel`.

A fast replay sends a whole tensor as one request. What it takes is estimated: at
a fixed bandwidth, or from the time a short stream of requests took in the memory
simulator, one figure for the first request and one for each that follows. The
measured figures are fields here, and exact in place of doubles. -/
namespace Hsim

namespace DramMacroModel

/-- The calibration of one direction. -/
structure Fit where
  firstNs : Rat := 0
  nsPerRequest : Rat := 0

/-- What `calibrate` measures. -/
structure Calibration where
  read : Fit := {}
  write : Fit := {}

end DramMacroModel

structure DramMacroModel where
  /-- `request_bytes_`, which the constructor keeps at one or more. -/
  requestBytes : UInt32
  requestBytes_pos : 1 ≤ requestBytes.toNat
  npuInfo : SyntheticNPUInfo
  calibration : DramMacroModel.Calibration

namespace DramMacroModel
variable (m : DramMacroModel)

/-- The model that a wrapper builds of its configuration. -/
def of (c : Configurations) (calibration : Calibration) : DramMacroModel where
  requestBytes := .ofNat (max 1 c.dramReqSize.toNat)
  requestBytes_pos := by
    have hlt := c.dramReqSize.toNat_lt
    rw [UInt32.toNat_ofNat']
    omega
  npuInfo := c.syntheticNpu
  calibration := calibration

/-- The requests that a transfer is charged for. -/
def requests (bytes : UInt64) : UInt64 :=
  (bytes + m.requestBytes.toUInt64 - 1) / m.requestBytes.toUInt64

def estimateNs (command : Command) (bytes : UInt64) : UInt64 :=
  if bytes = 0 then 0
  else match m.npuInfo.fastMemoryBackend with
    | .analytic =>
      m.npuInfo.fastMemoryFixedLatencyNs.toUInt64 +
        .ofNat ((bytes.toNat : Rat) / m.npuInfo.fastMemoryBandwidthGBps).ceil.toNat
    | .dramsim3Calibrated =>
      let fit := if command = .write then m.calibration.write else m.calibration.read
      let following := if 0 < m.requests bytes then m.requests bytes - 1 else 0
      m.npuInfo.fastMemoryFixedLatencyNs.toUInt64 +
        .ofNat (fit.firstNs + following.toNat * fit.nsPerRequest).ceil.toNat

/-- The count rounds up, and nothing wraps below 2^64. -/
theorem toNat_requests {bytes : UInt64} (h : bytes.toNat + m.requestBytes.toNat ≤ 2 ^ 64) :
    (m.requests bytes).toNat = (bytes.toNat + m.requestBytes.toNat - 1) / m.requestBytes.toNat := by
  have hpos := m.requestBytes_pos
  have hbytes := bytes.toNat_lt
  have hone : (1 : UInt64).toNat = 1 := rfl
  rw [requests, UInt64.toNat_div, UInt64.toNat_sub, UInt64.toNat_add, UInt32.toNat_toUInt64]
  congr 1
  omega

end DramMacroModel

end Hsim
