import Capcurl.Core.Duplex
import Capcurl.OriginHeaders
import Capcurl.Relay

/-! # The daemon refuses in few words -/

namespace Capcurl.Delivery

open Lib Http Policy Capcurl.Core Session Relay OriginHeaders

/-- A refusal whose length the client can read. -/
def Short (e : CoreError) : Prop := (refusalFor e).2.length < u64Bound

theorem short_of_text (e : CoreError) (detail : Text) (hdetail : detail.length ≤ 200)
    (h : ∃ status reason, refusalFor e = ResponseHead.refusal status reason detail) : Short e := by
  obtain ⟨status, reason, heq⟩ := h
  have hbody : (refusalFor e).2 = ascii "capcurl: " ++ detail ++ ascii "\n" := by
    rw [heq]
    rfl
  have htexts : (ascii "capcurl: ").length = 9 ∧ (ascii "\n").length = 1 := by decide
  have hbound : 210 < u64Bound := by decide
  unfold Short
  rw [hbody]
  simp only [List.length_append, htexts]
  omega

theorem short_http (e : HttpError) : Short (.http e) := by
  refine short_of_text _ e.text ?_ ⟨_, _, rfl⟩
  cases e <;> decide

theorem short_upstream (detail : Text) (h : detail.length ≤ 200) : Short (.upstream detail) :=
  short_of_text _ detail h ⟨_, _, rfl⟩

theorem short_tooLarge (what : WhichBody) (limit : UInt64) : Short (.denied (.tooLarge what limit)) := by
  have hdigits := decimal_length_le 20 limit.toNat (by omega) (Nat.lt_trans limit.toNat_lt (by decide))
  refine short_of_text _ (Denied.tooLarge what limit).text ?_ ⟨_, _, rfl⟩
  have htexts : (ascii " body exceeds the ").length = 18 ∧
      (ascii "-byte limit of this capability").length = 30 := by decide
  have hwhat : what.text.length ≤ 8 := by cases what <;> decide
  simp only [Denied.text, List.length_append, htexts]
  omega

theorem short_header (name : Text) : Short (.denied (.header (sanitize name))) := by
  have hname : (sanitize name).length ≤ 64 := by
    unfold sanitize
    simp only
    split
    · decide
    · exact List.length_take_le _ _
  refine short_of_text _ (Denied.header (sanitize name)).text ?_ ⟨_, _, rfl⟩
  have htext : (ascii "client may not set header ").length = 26 := by decide
  simp only [Denied.text, List.length_append, htext]
  omega

theorem short_notFixed : Short (.denied .notFixedRequest) :=
  short_of_text _ Denied.notFixedRequest.text (by decide) ⟨_, _, rfl⟩

theorem refuse_injective (e e' : CoreError) (h : Daemon.refuse e = Daemon.refuse e') : e = e' := by
  unfold Daemon.refuse at h
  injection h with houtcome _
  exact Except.error.inj houtcome

theorem short_of_fail (e : Halt CoreError) (e' : CoreError) (hshort : ∀ e', e = .err e' → Short e')
    (h : Daemon.fail e = Daemon.refuse e') : Short e' := by
  cases e with
  | err e => exact hshort e' (by rw [refuse_injective e e' h])
  | panic => cases h
  | fuel => cases h

theorem fetch_short (config : Config) (call : FetchCall) (e : CoreError)
    (h : fetchOf config call = .error e) : Short e := by
  rcases fetch_fault config call e h with ⟨detail, rfl, hdetail⟩ | ⟨limit, rfl⟩
  · exact short_upstream detail hdetail
  · exact short_tooLarge _ limit

section Refusals

variable (m : Mint) (e : CoreError)

theorem relay_short (head : RequestHead) (body : Bytes) (h : Daemon.relay m head body = Daemon.refuse e) :
    Short e := by
  unfold Daemon.relay at h
  rw [applyHeaders_eq] at h
  cases hfind : (clientHeaders head.headers).find? (offends m.config.grant) with
  | some field =>
    rw [hfind] at h
    rw [← refuse_injective _ _ h]
    exact short_header field.1
  | none =>
    rw [hfind] at h
    dsimp only at h
    split at h
    · rename_i e' hfetch
      rw [← refuse_injective _ _ h]
      exact fetch_short m.config { method := m.boundMethod, url := m.url, headers := _, body } e' hfetch
    · cases h

theorem bodyCheck_short (profile : Profile) (framing : Framing) (limit : UInt64) (buf : Bytes)
    (h : bodyCheck profile framing limit buf = some (.error (.err e))) : Short e := by
  unfold bodyCheck at h
  split at h
  · cases h
  · split at h
    · cases h
      exact short_tooLarge _ _
    · unfold lengthCheck at h
      split at h <;> cases h
  · unfold chunkedCheck at h
    split at h
    · cases h
    · split at h
      · cases h
        exact short_tooLarge _ _
      · cases h
    · cases h
      exact short_http _
    · cases h
    · cases h

theorem resumeBody_short (head : RequestHead) (buf : Bytes)
    (h : Daemon.resumeBody m head buf = Daemon.refuse e) : Short e := by
  unfold Daemon.resumeBody at h
  split at h
  · cases h
  · rename_i e' hcheck
    refine short_of_fail e' e (fun e'' he'' => ?_) h
    rw [he''] at hcheck
    exact bodyCheck_short e'' _ _ _ _ hcheck
  · exact relay_short m e head _ h

theorem resumeHead_short (buf : Bytes) (h : Daemon.resumeHead m buf = Daemon.refuse e) : Short e := by
  unfold Daemon.resumeHead at h
  split at h
  · cases h
  · rename_i e' hcheck
    refine short_of_fail e' e (fun e'' he'' => ?_) h
    unfold headCheck at hcheck
    rw [he''] at hcheck
    split at hcheck
    · split at hcheck <;> cases hcheck
      exact short_http _
    · split at hcheck <;> cases hcheck
      exact short_http _
  · unfold Daemon.parsed at h
    split at h
    · rw [← refuse_injective _ _ h]
      exact short_notFixed
    · exact resumeBody_short m e _ _ h

theorem read_short (daemon : Daemon) (part : Bytes) (hreading : daemon.isReading = true)
    (h : daemon.read m part = Daemon.refuse e) : Short e := by
  cases daemon with
  | readingHead buf => exact resumeHead_short m e _ h
  | readingBody head buf => exact resumeBody_short m e head _ h
  | writing outcome pending => cases hreading
  | shut => cases hreading
  | closed => cases hreading

end Refusals

end Capcurl.Delivery
