import WindbgMcp.KdConn.Connection

/-! Redaction is a property of the parse: every character of a connection string
lands in exactly one field, and the masked rendering reads no secret value. -/
namespace WindbgMcp.KdConn
open WindbgMcp.Library

def Param.written (param : Param) : String :=
  param.name ++ (param.value.elim "" fun value => "=" ++ value) ++
    param.separator.elim "" fun c => String.ofList [c]

/-- The prefix and each parameter's name, `=`, value and separator, in order. -/
def Parsed.written (parsed : Parsed) : String :=
  parsed.params.foldl (fun out param => out ++ param.written) parsed.transport

theorem Param.written_of (item : List Char) (separator : Option Char) :
    (Param.of item separator).written =
      String.ofList (item ++ separator.toList) := by
  apply String.toList_injective
  unfold Param.of
  split
  case h_1 name value hsplit =>
    rw [← Text.splitAtFirst_append hsplit]
    cases separator <;> simp [Param.written]
  case h_2 => cases separator <;> simp [Param.written]

theorem Parsed.written_items (rest : List Char) : ∀ (item : List Char) (out : String),
    (Parsed.items item rest).foldl (fun out param => out ++ param.written) out =
      out ++ String.ofList (item ++ rest) := by
  induction rest with
  | nil =>
    intro item out
    simp [Parsed.items, Param.written_of]
  | cons c rest ih =>
    intro item out
    unfold Parsed.items
    split
    · rw [List.foldl_cons, ih, Param.written_of]
      apply String.toList_injective
      simp
    · rw [ih, List.append_assoc]
      rfl

theorem splitTransport_append (connection : List Char) :
    (splitTransport connection).1 ++ (splitTransport connection).2 = connection := by
  unfold splitTransport
  dsimp only
  split
  · rw [List.splitAt_eq]
    exact List.take_append_drop _ _
  · rfl

theorem Parsed.written_of (connection : String) :
    (Parsed.of connection).written = connection := by
  have happend := splitTransport_append connection.toList
  unfold Parsed.of Parsed.written
  dsimp only
  rw [Parsed.written_items, List.nil_append, ← String.ofList_append, happend,
    String.ofList_toList]

/-- Two parameters that are the same up to the non-blank value of a secret one. -/
inductive Param.AgreesOutsideSecret : Param → Param → Prop
  | same (param : Param) : AgreesOutsideSecret param param
  | secret {name : String} {separator : Option Char} {value other : String}
      (hnamed : isSecretName name) (hshown : !isBlank value) (hshown' : !isBlank other) :
      AgreesOutsideSecret ⟨name, some value, separator⟩ ⟨name, some other, separator⟩

/-- Two parsed connections that differ at most in their non-blank secret values. -/
structure Parsed.AgreesOutsideSecrets (parsed other : Parsed) : Prop where
  transport : parsed.transport = other.transport
  params : List.Forall₂ Param.AgreesOutsideSecret parsed.params other.params

theorem Param.AgreesOutsideSecret.render_eq {param other : Param}
    (hagree : param.AgreesOutsideSecret other) (out : String) :
    param.render .mask out = other.render .mask out := by
  cases hagree with
  | same => rfl
  | secret hnamed hshown hshown' =>
    have hide : ∀ (name value : String) (separator : Option Char), isSecretName name →
        !Param.isBlank value →
        Param.renderValue ⟨name, some value, separator⟩ .mask value = mask := by
      intro name value separator hname hvalue
      unfold Param.renderValue Param.isSecret
      simp [hname, hvalue]
    unfold Param.render
    simp only [hide _ _ _ hnamed hshown, hide _ _ _ hnamed hshown']

theorem foldl_render_mask_eq {params others : List Param}
    (hagree : List.Forall₂ Param.AgreesOutsideSecret params others) : ∀ out : String,
    params.foldl (fun out param => param.render .mask out) out =
      others.foldl (fun out param => param.render .mask out) out := by
  induction hagree with
  | nil =>
    intro out
    rfl
  | cons hfirst _ ih =>
    intro out
    rw [List.foldl_cons, List.foldl_cons, hfirst.render_eq]
    apply ih

theorem Parsed.AgreesOutsideSecrets.render_eq {parsed other : Parsed}
    (hagree : parsed.AgreesOutsideSecrets other) :
    parsed.render .mask = other.render .mask := by
  unfold Parsed.render
  rw [hagree.transport]
  exact foldl_render_mask_eq hagree.params _

theorem redact_of_ambiguous {connection : String}
    (hambiguous : ∃ c ∈ connection.toList, isAmbiguous c) :
    redact connection = opaqueConnection := by
  unfold redact
  rw [if_pos (List.any_eq_true.mpr hambiguous)]

theorem redact_of_plain {connection : String}
    (hplain : ∀ c ∈ connection.toList, ¬isAmbiguous c) :
    redact connection = (Parsed.of connection).render .mask := by
  unfold redact
  rw [if_neg]
  intro hany
  obtain ⟨c, hc, hambiguous⟩ := List.any_eq_true.mp hany
  exact hplain c hc hambiguous

theorem plain_of_all {connection : String}
    (hplain : (connection.toList.all fun c => !isAmbiguous c) = true) :
    ∀ c ∈ connection.toList, ¬isAmbiguous c := by
  intro c hmember
  simpa using List.all_eq_true.mp hplain c hmember

/-- The parse is total, the redacted text of a plain connection does not depend on
its secrets, and every ambiguous one has the same opaque text. -/
theorem redaction_noninterfering (quoted : String → String) :
    (∀ connection, (Parsed.of connection).written = connection) ∧
    (∀ connection other,
      (∀ c ∈ connection.toList, ¬isAmbiguous c) → (∀ c ∈ other.toList, ¬isAmbiguous c) →
      (Parsed.of connection).AgreesOutsideSecrets (Parsed.of other) →
        redact connection = redact other ∧
        Connection.display ⟨connection⟩ = Connection.display ⟨other⟩ ∧
        Connection.debug quoted ⟨connection⟩ = Connection.debug quoted ⟨other⟩) ∧
    (∀ connection, (∃ c ∈ connection.toList, isAmbiguous c) →
      redact connection = opaqueConnection ∧
      Connection.display ⟨connection⟩ = opaqueConnection ∧
      Connection.debug quoted ⟨connection⟩ = "Connection(" ++ quoted opaqueConnection ++ ")") := by
  refine ⟨Parsed.written_of, ?_, ?_⟩
  · intro connection other hplain hplain' hagree
    have heq : redact connection = redact other := by
      rw [redact_of_plain hplain, redact_of_plain hplain', hagree.render_eq]
    refine ⟨heq, heq, ?_⟩
    unfold Connection.debug Connection.redacted
    rw [heq]
  · intro connection hambiguous
    have heq := redact_of_ambiguous hambiguous
    refine ⟨heq, heq, ?_⟩
    unfold Connection.debug Connection.redacted
    rw [heq]

theorem redaction_noninterfering_keys :
    redact "net:port=50000,Key=1.2.3.4" = redact "net:port=50000,Key=w.x.y" ∧
      redact "net:port=50000 key=1" = opaqueConnection := by
  constructor
  · have hagree : (Parsed.of "net:port=50000,Key=1.2.3.4").AgreesOutsideSecrets
        (Parsed.of "net:port=50000,Key=w.x.y") := by
      have hleft : Parsed.of "net:port=50000,Key=1.2.3.4" =
          ⟨"net:", [⟨"port", some "50000", some ','⟩, ⟨"Key", some "1.2.3.4", none⟩]⟩ := by
        decide +kernel
      have hright : Parsed.of "net:port=50000,Key=w.x.y" =
          ⟨"net:", [⟨"port", some "50000", some ','⟩, ⟨"Key", some "w.x.y", none⟩]⟩ := by
        decide +kernel
      rw [hleft, hright]
      exact ⟨rfl, .cons (.same _) (.cons (.secret (by decide +kernel) (by decide +kernel)
        (by decide +kernel)) .nil)⟩
    exact ((redaction_noninterfering id).2.1 _ _ (plain_of_all (by decide +kernel))
      (plain_of_all (by decide +kernel)) hagree).1
  · exact ((redaction_noninterfering id).2.2 _ ⟨' ', by decide +kernel, by decide +kernel⟩).1

end WindbgMcp.KdConn
