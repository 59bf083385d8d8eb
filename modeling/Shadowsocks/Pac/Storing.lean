import Shadowsocks.Pac.Serving

/-! What an update of the rules leaves at the path of the PAC file. -/
namespace Shadowsocks

variable {F : Foundation} {T : Template} {responseObject : Bytes} {file userFile : Option Bytes}

/-- The file after the block for a successful download, with `user-rule.txt` as it is read. -/
def Foundation.pacFile (F : Foundation) (T : Template) (responseObject : Bytes)
    (userFile file : Option Bytes) : Option Bytes :=
  match F.updatePACFromGFWList T responseObject (userFile.bind stringWithData) with
  | some written => some written
  | none => file

/-- The body of the response is the base64 encoding of these data. -/
def Foundation.Encodes (F : Foundation) (responseObject data : Bytes) : Prop :=
  ∃ str, stringWithData responseObject = some str ∧ F.initWithBase64Encoding str = some data

/-- The template with no rule at all. -/
def Template.empty (T : Template) : Bytes :=
  utf8 (T.layout "127.0.0.1:1080".toList (arrayText []))

theorem Foundation.Encodes.downloadedRules {data : Bytes} (h : F.Encodes responseObject data)
    (userRule : Option Text) : F.downloadedRules responseObject userRule =
      some (filteredLines (stringWithData data) userRule) := by
  obtain ⟨str, hstr, hdata⟩ := h
  simp only [Foundation.downloadedRules, hstr, hdata, Option.bind_eq_bind, Option.bind_some]

/-- A body that is no base64 changes nothing. -/
theorem Foundation.pacFile_of_not_encodes (h : ∀ data, ¬ F.Encodes responseObject data) :
    F.pacFile T responseObject userFile file = file := by
  have hnone : F.downloadedRules responseObject (userFile.bind stringWithData) = none := by
    rw [downloadedRules]
    cases hstr : stringWithData responseObject with
    | none => rfl
    | some str =>
      cases hdata : F.initWithBase64Encoding str with
      | none => simp [hdata]
      | some data => exact absurd ⟨str, hstr, hdata⟩ (h data)
  rw [pacFile, updatePACFromGFWList, hnone]
  rfl

end Shadowsocks
