import RestreamPlus.Domain.Target
import RestreamPlus.Lib.Replace

/-!
# Output URLs (`app/fanout/ffmpeg_urls.py`)
-/

namespace RestreamPlus

open Replace

/-- What `compose_out_url` refuses. -/
inductive UrlError : Type where
  /-- the target URL is empty -/
  | empty
  /-- neither `rtmp://` nor `rtmps://` -/
  | scheme
  /-- a backup role outside YouTube -/
  | backup : TargetType → UrlError
  deriving DecidableEq

/-- The value of a `TargetType` as text. -/
def TargetType.value : TargetType → String
  | .twitch => "twitch"
  | .youtube => "youtube"
  | .kick => "kick"
  | .vkLive => "vk_live"
  | .custom => "custom"

/-- The message of the `ValueError`. -/
def UrlError.message : UrlError → String
  | .empty => "target_url must not be empty"
  | .scheme => "target_url must use rtmp:// or rtmps:// scheme; " ++
      "ffmpeg argv injection guard (post-Phase-5 review fix M4)"
  | .backup t => "backup role is only valid for YouTube targets; got '" ++ t.value ++ "'"

/-- `<url>/<key>` with exactly one slash between. -/
def joinKey (targetUrl plaintextKey : Text) : Text :=
  stripEnd '/' targetUrl ++ '/' :: plaintextKey

/-- The URL ffmpeg pushes to. -/
def composeOutUrl (targetType : TargetType) (targetUrl plaintextKey : Text)
    (role : WorkerRole) : Except UrlError Text :=
  if targetUrl = [] then .error .empty
  else if ¬ ("rtmp://".toList <+: targetUrl ∨ "rtmps://".toList <+: targetUrl) then .error .scheme
  else if role = .backup ∧ targetType ≠ .youtube then .error (.backup targetType)
  else if targetType = .vkLive then .ok (joinKey targetUrl plaintextKey)
  else if targetType = .custom then
    if plaintextKey = [] then .ok targetUrl else .ok (joinKey targetUrl plaintextKey)
  else if targetType = .youtube ∧ role = .backup then
    -- the backup ingest is the primary's with the host swapped
    let backupUrl := replaceFirst "a.rtmps.".toList "b.rtmps.".toList targetUrl
    .ok (joinKey backupUrl plaintextKey ++ "?backup=1".toList)
  else .ok (joinKey targetUrl plaintextKey)

example : composeOutUrl .youtube "rtmps://a.rtmps.youtube.com:443/live2".toList "k".toList .backup =
    .ok "rtmps://b.rtmps.youtube.com:443/live2/k?backup=1".toList := by decide

/-- What `compose_out_url` returns for a key. -/
def outUrl (targetUrl plaintextKey : Text) : WorkerRole → Text
  | .primary => joinKey targetUrl plaintextKey
  | .backup => joinKey (replaceFirst "a.rtmps.".toList "b.rtmps.".toList targetUrl) plaintextKey ++
      "?backup=1".toList

theorem composeOutUrl_eq_ok {targetType : TargetType} {targetUrl key url : Text}
    {role : WorkerRole} (hkey : key ≠ []) :
    composeOutUrl targetType targetUrl key role = .ok url ↔
      ("rtmp://".toList <+: targetUrl ∨ "rtmps://".toList <+: targetUrl) ∧
        (role = .backup → targetType = .youtube) ∧ url = outUrl targetUrl key role := by
  rw [composeOutUrl]
  by_cases hscheme : "rtmp://".toList <+: targetUrl ∨ "rtmps://".toList <+: targetUrl
  · have hne : targetUrl ≠ [] := by
      rintro rfl
      simp at hscheme
    rw [if_neg hne, if_neg (not_not_intro hscheme), and_iff_right hscheme]
    cases role with
    | primary => cases targetType <;> simp [hkey, outUrl, eq_comm]
    | backup => cases targetType <;> simp [outUrl, eq_comm]
  · rw [if_pos hscheme]
    refine iff_of_false (fun h => ?_) fun h => hscheme h.1
    split at h <;> cases h

end RestreamPlus
