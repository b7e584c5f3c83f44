import Hsim.Labels
import Hsim.Lib.LastMatch

/-! The configuration of a single channel, `one_channel_config_path`.

The wrappers name a memory configuration by its type, its preset and the number of its
channels. The calibration runs on one channel, and derives the name of that
configuration from the name it was given: the number between the last `_ch` and the
last `.ini` becomes a 1. The other parts of the name may be any text. -/
namespace Hsim

open Lib (LastMatch rfind)

/-- The path `init_dram` and `init_pim_dram` hand to the memory simulator. -/
def configPath (root type config preset : String) (channels : UInt32) : String :=
  root ++ "configs/" ++ type ++ "/" ++ config ++ "_" ++ preset ++ "_ch" ++ toString channels.toNat ++ ".ini"

namespace DramMacroModel

def cannotDerive (path : String) : String :=
  "Cannot derive one-channel DRAMsim3 configuration from: " ++ path

def oneChannelConfigPath (path : String) : Except String String :=
  let text := path.toList
  match rfind "_ch".toList text, rfind ".ini".toList text with
  | some marker, some extension =>
    if extension ≤ marker + 3 then .error (cannotDerive path)
    else
      let channelText := (text.drop (marker + 3)).take (extension - marker - 3)
      if !channelText.all Char.isDigit then .error (cannotDerive path)
      else .ok (String.ofList (text.take marker) ++ "_ch1" ++ String.ofList (text.drop extension))
  | _, _ => .error (cannotDerive path)

/-! ### Paths with a number of channels -/

/-- The last `_ch` of the path is followed by a decimal number, and that by the last `.ini`. -/
structure ChannelPath (path : String) (front number rest : List Char) : Prop where
  split : path.toList = front ++ ("_ch".toList ++ (number ++ (".ini".toList ++ rest)))
  some_digit : number ≠ []
  digits : ∀ c ∈ number, c.isDigit = true
  marker : LastMatch "_ch".toList path.toList front.length
  extension : LastMatch ".ini".toList path.toList (front.length + 3 + number.length)

section
variable {path : String} {front number rest : List Char}

theorem digit_ne {c d : Char} (hc : c.isDigit = true) (hd : d.isDigit = false) : d ≠ c := by
  rintro rfl
  rw [hc] at hd
  cases hd

/-- Neither mark occurs in what follows the number. -/
theorem ChannelPath.rest_free (h : ChannelPath path front number rest) :
    ¬ "_ch".toList <:+: ".ini".toList ++ rest ∧ ¬ ".ini".toList <:+: rest := by
  have hnumber : '_' ∉ number := fun hmem => digit_ne (h.digits _ hmem) (by decide) rfl
  constructor
  · have hmarker := h.marker
    rw [h.split] at hmarker
    have hfree := (Lib.lastMatch_iff (c := '_') (p := "ch".toList) (by decide)).mp hmarker
    rw [Lib.infix_append_iff (p := "ch".toList) hnumber] at hfree
    exact hfree
  · have hextension := h.extension
    have hlength : front.length + 3 + number.length = (front ++ ("_ch".toList ++ number)).length := by
      rw [List.length_append, List.length_append, Nat.add_assoc]
      rfl
    rw [h.split, hlength, ← List.append_assoc "_ch".toList, ← List.append_assoc front] at hextension
    exact (Lib.lastMatch_iff (c := '.') (p := "ini".toList) (by decide)).mp hextension

/-- A number between two marks that do not occur behind it. -/
theorem channelPath_of_free
    (hsplit : path.toList = front ++ ("_ch".toList ++ (number ++ (".ini".toList ++ rest))))
    (hne : number ≠ []) (hdigits : ∀ c ∈ number, c.isDigit = true)
    (hmarker : ¬ "_ch".toList <:+: ".ini".toList ++ rest) (hextension : ¬ ".ini".toList <:+: rest) :
    ChannelPath path front number rest := by
  have hnumber : '_' ∉ number := fun hmem => digit_ne (hdigits _ hmem) (by decide) rfl
  refine ⟨hsplit, hne, hdigits, ?_, ?_⟩
  · rw [hsplit]
    refine (Lib.lastMatch_iff (c := '_') (p := "ch".toList) (by decide)).mpr ?_
    rw [Lib.infix_append_iff (p := "ch".toList) hnumber]
    exact hmarker
  · have hlength : front.length + 3 + number.length = (front ++ ("_ch".toList ++ number)).length := by
      rw [List.length_append, List.length_append, Nat.add_assoc]
      rfl
    rw [hsplit, hlength, ← List.append_assoc "_ch".toList, ← List.append_assoc front]
    exact (Lib.lastMatch_iff (c := '.') (p := "ini".toList) (by decide)).mpr hextension

/-- Another number may stand in a path. -/
theorem ChannelPath.renumber (h : ChannelPath path front number rest) {path' : String}
    {number' : List Char}
    (hsplit : path'.toList = front ++ ("_ch".toList ++ (number' ++ (".ini".toList ++ rest))))
    (hne : number' ≠ []) (hdigits : ∀ c ∈ number', c.isDigit = true) :
    ChannelPath path' front number' rest :=
  channelPath_of_free hsplit hne hdigits h.rest_free.1 h.rest_free.2

/-! ### The path of one channel -/

theorem rfind_marker {i : Nat} {text : List Char} :
    rfind "_ch".toList text = some i ↔ LastMatch "_ch".toList text i :=
  Lib.rfind_eq_some_iff (by decide)

theorem rfind_extension {i : Nat} {text : List Char} :
    rfind ".ini".toList text = some i ↔ LastMatch ".ini".toList text i :=
  Lib.rfind_eq_some_iff (by decide)

/-- A path with a number is rewritten to have a 1. -/
theorem oneChannelConfigPath_ok (h : ChannelPath path front number rest) :
    oneChannelConfigPath path =
      .ok (String.ofList (front ++ ("_ch1".toList ++ (".ini".toList ++ rest)))) := by
  have hmarker := rfind_marker.mpr h.marker
  have hextension := rfind_extension.mpr h.extension
  have hpos := List.length_pos_iff.mpr h.some_digit
  have hchannel : (path.toList.drop (front.length + 3)).take
      (front.length + 3 + number.length - front.length - 3) = number := by
    have hcount : front.length + 3 + number.length - front.length - 3 = number.length := by omega
    rw [h.split, List.drop_length_add_append, hcount]
    exact List.take_left
  have htail : path.toList.drop (front.length + 3 + number.length) = ".ini".toList ++ rest := by
    rw [h.split, Nat.add_assoc, List.drop_length_add_append]
    show ("_ch".toList ++ (number ++ (".ini".toList ++ rest))).drop
      ("_ch".toList.length + number.length) = _
    rw [List.drop_length_add_append]
    exact List.drop_left
  have hall : number.all Char.isDigit = true := List.all_eq_true.mpr h.digits
  rw [oneChannelConfigPath]
  dsimp only
  rw [hmarker, hextension]
  dsimp only
  rw [if_neg (by omega), hchannel, hall, htail, h.split, List.take_left]
  refine congrArg Except.ok (String.toList_inj.mp ?_)
  simp only [String.toList_append, String.toList_ofList, List.append_assoc]

/-- There is one reason to refuse a path. -/
theorem oneChannelConfigPath_error {message : String} (h : oneChannelConfigPath path = .error message) :
    message = cannotDerive path := by
  unfold oneChannelConfigPath at h
  dsimp only at h
  split at h
  · split at h
    · exact (Except.error.inj h).symm
    · split at h
      · exact (Except.error.inj h).symm
      · cases h
  · exact (Except.error.inj h).symm

/-- A path that is rewritten has a number. -/
theorem channelPath_of_ok {result : String} (h : oneChannelConfigPath path = .ok result) :
    ∃ front number rest, ChannelPath path front number rest := by
  unfold oneChannelConfigPath at h
  dsimp only at h
  split at h
  · next marker extension hmarker hextension =>
    split at h
    · cases h
    · next hlt =>
      split at h
      · cases h
      · next hall =>
        have hmark := rfind_marker.mp hmarker
        have hext := rfind_extension.mp hextension
        obtain ⟨behind, hbehind⟩ := hmark.here
        obtain ⟨rest, hrest⟩ := hext.here
        have hextLt := Lib.lt_length_of_match (by decide) hext.here
        generalize hnumber : (path.toList.drop (marker + 3)).take (extension - marker - 3) = number at hall
        have hfront : (path.toList.take marker).length = marker := List.length_take_of_le (by omega)
        have hlength : number.length = extension - marker - 3 := by
          rw [← hnumber, List.length_take_of_le]
          rw [List.length_drop]
          omega
        have hsplit : path.toList.drop (marker + 3) = number ++ (".ini".toList ++ rest) := by
          have hdrop : (path.toList.drop (marker + 3)).drop (extension - marker - 3) =
              ".ini".toList ++ rest := by
            rw [List.drop_drop, hrest]
            congr 1
            omega
          rw [← hdrop, ← hnumber, List.take_append_drop]
        have hwhole : path.toList =
            path.toList.take marker ++ ("_ch".toList ++ (number ++ (".ini".toList ++ rest))) := by
          have hskip : behind = path.toList.drop (marker + 3) := by
            rw [← List.drop_drop, ← hbehind]
            show behind = ("_ch".toList ++ behind).drop "_ch".toList.length
            exact List.drop_left.symm
          calc path.toList = path.toList.take marker ++ path.toList.drop marker :=
                (List.take_append_drop ..).symm
            _ = path.toList.take marker ++ ("_ch".toList ++ behind) := by rw [hbehind]
            _ = _ := by rw [hskip, hsplit]
        refine ⟨path.toList.take marker, number, rest, hwhole, ?_, ?_, ?_, ?_⟩
        · exact List.ne_nil_of_length_pos (by omega)
        · simpa using hall
        · rwa [hfront]
        · rwa [hfront, hlength, show marker + 3 + (extension - marker - 3) = extension by omega]
  · cases h

end

/-- The path of the wrappers has a number, whatever its other parts are. -/
theorem configPath_channelPath (root type config preset : String) (channels : UInt32) :
    ∃ front, ChannelPath (configPath root type config preset channels) front
      (toString channels.toNat).toList [] ∧
      ∀ n : UInt32, (configPath root type config preset n).toList =
        front ++ ("_ch".toList ++ ((toString n.toNat).toList ++ (".ini".toList ++ []))) := by
  have hsplit : ∀ n : UInt32, (configPath root type config preset n).toList =
      (root ++ "configs/" ++ type ++ "/" ++ config ++ "_" ++ preset).toList ++
        ("_ch".toList ++ ((toString n.toNat).toList ++ (".ini".toList ++ []))) := by
    intro n
    simp only [configPath, String.toList_append, List.append_assoc, List.append_nil]
  refine ⟨_, channelPath_of_free (hsplit channels) ?_ (Host.isDigit_toString _) (by decide) (by decide),
    hsplit⟩
  rw [Nat.toString_eq_repr, Nat.toList_repr]
  exact Nat.toDigits_ne_nil

/-- **The path of one channel.** The path of the wrappers comes back with a 1 for its
number, a path that came back comes back unchanged, and a path is refused exactly when its
last `_ch` is not followed by a decimal number and the last `.ini`. -/
theorem oneChannelConfigPath_spec :
    (∀ (root type config preset : String) (channels : UInt32),
      oneChannelConfigPath (configPath root type config preset channels) =
        .ok (configPath root type config preset 1)) ∧
    (∀ path result, oneChannelConfigPath path = .ok result → oneChannelConfigPath result = .ok result) ∧
    (∀ path, oneChannelConfigPath path = .error (cannotDerive path) ↔
      ¬ ∃ front number rest, ChannelPath path front number rest) := by
  refine ⟨fun root type config preset channels => ?_, fun path result h => ?_,
    fun path => ⟨?_, fun h => ?_⟩⟩
  · obtain ⟨front, hpath, hsplit⟩ := configPath_channelPath root type config preset channels
    rw [oneChannelConfigPath_ok hpath]
    refine congrArg Except.ok (String.toList_inj.mp ?_)
    rw [hsplit, String.toList_ofList]
    rfl
  · obtain ⟨front, number, rest, hpath⟩ := channelPath_of_ok h
    rw [oneChannelConfigPath_ok hpath, Except.ok.injEq] at h
    have hsplit : result.toList = front ++ ("_ch".toList ++ ("1".toList ++ (".ini".toList ++ rest))) := by
      rw [← h, String.toList_ofList]
      rfl
    have hresult : ChannelPath result front "1".toList rest :=
      hpath.renumber hsplit (by decide) (List.all_eq_true.mp rfl)
    rw [oneChannelConfigPath_ok hresult, ← h]
  · rintro herror ⟨front, number, rest, hpath⟩
    rw [oneChannelConfigPath_ok hpath] at herror
    cases herror
  · cases hresult : oneChannelConfigPath path with
    | ok result => exact absurd (channelPath_of_ok hresult) h
    | error message => rw [oneChannelConfigPath_error hresult]

end DramMacroModel

end Hsim
