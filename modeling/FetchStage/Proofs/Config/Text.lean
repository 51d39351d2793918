import FetchStage.Config.Text
import FetchStage.Proofs.Json.Record

/-! # Configurations in JSON text

What each key of a configuration says, section by section. A text gives the defaults with exactly the values it names
replaced, and this configuration is then checked.
-/
namespace FetchStage
open Json

theorem reads_countField : Reads countField (CountText Count.limit) :=
  reads_count (Nat.le_refl _) _

def WordText (w : Word) : List Char → Prop := CountText (Nat.pow 2 32) w.toNat

theorem reads_wordField : Reads wordField WordText := by
  intro w cs front rest htext hfront hrest
  have hlimit : Nat.pow 2 32 ≤ significandLimit := by decide
  have hread := reads_count hlimit "u32" w.toNat cs front rest htext hfront hrest
  simp [wordField, hread, Except.map]

def ControllerText : Controller → List Char → Prop :=
  VariantText [("Simple", .simple), ("Dram", .dram), ("DRAM", .dram)]

theorem reads_controllerField : Reads controllerField ControllerText :=
  reads_variant (by decide) _

namespace GeneralConfig

def attributes : List (Attribute GeneralConfig) :=
  [⟨"max_cycles", Nat, (·.maxCycles), CountText Count.limit⟩,
    ⟨"trace", Bool, (·.trace), BooleanText⟩,
    ⟨"stop_on_violation", Bool, (·.stopOnViolation), BooleanText⟩]

theorem fits : Fits fields attributes where
  binds :=
    .cons ⟨_, _, rfl, reads_countField, fun _ _ => ⟨rfl, by simp [attributes]⟩⟩ <|
    .cons ⟨_, _, rfl, reads_boolean, fun _ _ => ⟨rfl, by simp [attributes]⟩⟩ <|
    .cons ⟨_, _, rfl, reads_boolean, fun _ _ => ⟨rfl, by simp [attributes]⟩⟩ .nil
  distinct := by decide
  ext r s h := by
    cases r
    cases s
    simpa [attributes] using h

end GeneralConfig

namespace MemoryConfig

def attributes : List (Attribute MemoryConfig) :=
  [⟨"controller", Controller, (·.controller), ControllerText⟩,
    ⟨"latency", Nat, (·.latency), CountText Count.limit⟩,
    ⟨"t_cas", Nat, (·.columnAccess), CountText Count.limit⟩,
    ⟨"t_ras", Nat, (·.activate), CountText Count.limit⟩,
    ⟨"t_pre", Nat, (·.precharge), CountText Count.limit⟩,
    ⟨"fill_word", Word, (·.fill), WordText⟩]

theorem fits : Fits fields attributes where
  binds :=
    .cons ⟨_, _, rfl, reads_controllerField, fun _ _ => ⟨rfl, by simp [attributes]⟩⟩ <|
    .cons ⟨_, _, rfl, reads_countField, fun _ _ => ⟨rfl, by simp [attributes]⟩⟩ <|
    .cons ⟨_, _, rfl, reads_countField, fun _ _ => ⟨rfl, by simp [attributes]⟩⟩ <|
    .cons ⟨_, _, rfl, reads_countField, fun _ _ => ⟨rfl, by simp [attributes]⟩⟩ <|
    .cons ⟨_, _, rfl, reads_countField, fun _ _ => ⟨rfl, by simp [attributes]⟩⟩ <|
    .cons ⟨_, _, rfl, reads_wordField, fun _ _ => ⟨rfl, by simp [attributes]⟩⟩ .nil
  distinct := by decide
  ext r s h := by
    cases r
    cases s
    simpa [attributes] using h

end MemoryConfig

namespace Consumer

def attributes : List (Attribute Consumer) :=
  [⟨"consume_period", Nat, (·.period), CountText Count.limit⟩,
    ⟨"stall_every", Nat, (·.stallEvery), CountText Count.limit⟩,
    ⟨"stall_length", Nat, (·.stallLength), CountText Count.limit⟩]

theorem fits : Fits fields attributes where
  binds :=
    .cons ⟨_, _, rfl, reads_countField, fun _ _ => ⟨rfl, by simp [attributes]⟩⟩ <|
    .cons ⟨_, _, rfl, reads_countField, fun _ _ => ⟨rfl, by simp [attributes]⟩⟩ <|
    .cons ⟨_, _, rfl, reads_countField, fun _ _ => ⟨rfl, by simp [attributes]⟩⟩ .nil
  distinct := by decide
  ext r s h := by
    cases r
    cases s
    simpa [attributes] using h

end Consumer

namespace ResolutionConfig

def attributes : List (Attribute ResolutionConfig) := [⟨"delay", Nat, (·.delay), CountText Count.limit⟩]

theorem fits : Fits fields attributes where
  binds := .cons ⟨_, _, rfl, reads_countField, fun _ _ => ⟨rfl, by simp [attributes]⟩⟩ .nil
  distinct := by decide
  ext r s h := by
    cases r
    cases s
    simpa [attributes] using h

end ResolutionConfig

namespace Config

def attributes : List (Attribute Config) :=
  [⟨"general", GeneralConfig, (·.general), RecordText GeneralConfig.attributes {}⟩,
    ⟨"memory", MemoryConfig, (·.memory), RecordText MemoryConfig.attributes {}⟩,
    ⟨"consumer", Consumer, (·.consumer), RecordText Consumer.attributes {}⟩,
    ⟨"resolution", ResolutionConfig, (·.resolution), RecordText ResolutionConfig.attributes {}⟩]

/-- A key omitted in its section has the value it has when the whole section is left out. -/
theorem omitted_eq_default : GeneralConfig.omitted = {} ∧ MemoryConfig.omitted = {} ∧ Consumer.omitted = {} ∧
    ResolutionConfig.omitted = {} := by decide

theorem fits : Fits fields attributes where
  binds := by
    unfold fields
    obtain ⟨hgeneral, hmemory, hconsumer, hresolution⟩ := omitted_eq_default
    rw [hgeneral, hmemory, hconsumer, hresolution]
    exact
      .cons ⟨_, _, rfl, reads_record GeneralConfig.fits _ _, fun _ _ => ⟨rfl, by simp [attributes]⟩⟩ <|
      .cons ⟨_, _, rfl, reads_record MemoryConfig.fits _ _, fun _ _ => ⟨rfl, by simp [attributes]⟩⟩ <|
      .cons ⟨_, _, rfl, reads_record Consumer.fits _ _, fun _ _ => ⟨rfl, by simp [attributes]⟩⟩ <|
      .cons ⟨_, _, rfl, reads_record ResolutionConfig.fits _ _, fun _ _ => ⟨rfl, by simp [attributes]⟩⟩ .nil
  distinct := by decide
  ext r s h := by
    cases r
    cases s
    simpa [attributes] using h

/-- One configuration has the values of the given keys and the defaults in all else. The text is read as this one if a run can
have it, and is refused for its first setting out of range otherwise. -/
theorem ofText_replaces {front body back : List Char} {ms : List Member} (hfront : Space front) (hbody : ObjectText ms body)
    (hback : Space back) (htyped : WellTyped attributes ms) :
    ∃ c : Config, (∀ d, Replaces attributes {} d ms ↔ d = c) ∧
      (c.validate = .ok () → ofText (front ++ body ++ back) = .ok c) ∧
      ∀ s, c.validate = .error s → ofText (front ++ body ++ back) = .error (.invalid s) := by
  obtain ⟨c, hc⟩ := htyped.exists_replaces fits {}
  have hread : read (front ++ body ++ back) = .ok c :=
    whole_text (reads_record fits _ _) ⟨ms, hbody, htyped, hc⟩ hfront hback
  refine ⟨c, fun d => ⟨fun hd => hd.unique fits hc, fun hd => hd ▸ hc⟩, ?_, ?_⟩
  · intro hvalid
    simp only [ofText, hread, hvalid]
  · intro s hinvalid
    simp only [ofText, hread, hinvalid]

/-- An unknown key with a nested value stands before a section that gives one of its keys, which is written with an escape. -/
theorem ofText_replaces_partial :
    ∃ text ms, text = "\x7b \"note\": [1, \x7b\x7d], \"memory\":\x7b\"t\\u005fcas\":3\x7d \x7d".toList ∧ ObjectText ms text ∧
      WellTyped attributes ms ∧ ofText text = .ok { memory := { columnAccess := 3 } } := by
  have hnone : Space [] := nofun
  have hblank : Space [' '] := by simp [Space, isSpace]
  have hdigits : ∀ d, d.isDigit → Digits [d] := fun d hd => ⟨by simp, by simpa using hd⟩
  have hone : NumberText ['1'] :=
    ⟨[], ['1'], [], [], .inl rfl, ⟨hdigits _ rfl, by decide⟩, .inl rfl, .inl rfl, rfl⟩
  have hnote : IsValue "[1, \x7b\x7d]".toList :=
    .list (.moreItems hnone (.number hone) hnone (.item hblank (.emptyObject hnone) hnone))
  have hthree : CountText Count.limit 3 ['3'] :=
    ⟨⟨hdigits _ rfl, by decide⟩, .digit ⟨by decide, .inl rfl⟩, by decide⟩
  have hquad : Quad "005f".toList 0x5F := by
    have hread : Text.readMagnitude 16 0x10000 "005f".toList = .ok 0x5F := rfl
    exact ⟨rfl, ((Text.readMagnitude_numeral (by decide) (by decide)).mp hread).1⟩
  have hkey : Quotes "t\\u005fcas".toList "t_cas".toList :=
    .plain (by decide) (by decide) (by decide) (.code hquad rfl rfl (quotes_plain (by decide)))
  have hmemory : RecordText MemoryConfig.attributes {} { columnAccess := 3 } "\x7b\"t\\u005fcas\":3\x7d".toList := by
    refine ⟨[("t_cas".toList, ['3'])], .members (.one (.mk hnone hkey hnone hnone hnone)), ⟨by decide, ?_, ?_⟩, ?_, ?_⟩
    · simpa [MemoryConfig.attributes] using ⟨3, hthree⟩
    · simp [MemoryConfig.attributes]
    · simpa [MemoryConfig.attributes] using hthree
    · simp [MemoryConfig.attributes]
  have hconfig : RecordText attributes {} { memory := { columnAccess := 3 } }
      "\x7b \"note\": [1, \x7b\x7d], \"memory\":\x7b\"t\\u005fcas\":3\x7d \x7d".toList := by
    refine ⟨[("note".toList, "[1, \x7b\x7d]".toList), ("memory".toList, "\x7b\"t\\u005fcas\":3\x7d".toList)],
      .members (.more (.mk hblank (quotes_plain (by decide)) hnone hblank hnone)
        (.one (.mk hblank (quotes_plain (by decide)) hnone hnone hblank))), ⟨by decide, ?_, ?_⟩, ?_, ?_⟩
    · simpa [attributes] using ⟨_, hmemory⟩
    · simpa [attributes] using hnote
    · simpa [attributes] using hmemory
    · simp [attributes]
  obtain ⟨ms, hbody, htyped, hreplaces⟩ := hconfig
  obtain ⟨c, hc, hvalid, _⟩ := ofText_replaces hnone hbody hnone htyped
  cases (hc _).mp hreplaces
  refine ⟨_, ms, rfl, hbody, htyped, ?_⟩
  rw [← List.append_nil (String.toList _)]
  exact hvalid rfl

end Config

end FetchStage
