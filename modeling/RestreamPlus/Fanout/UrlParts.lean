import Mathlib.Data.List.TakeWhile
import RestreamPlus.Fanout.Urls

/-!
# The parts of an output URL

`compose_out_url` works on the text of the URL: it strips slashes at the end and
replaces the first `a.rtmps.`, wherever that is. Here the URL is read as scheme, user
info, host and the rest, and `swapHost` replaces the beginning of the host.

`preserves_iff` says when the composed URL is the one that is meant.
-/

namespace RestreamPlus

namespace TargetUrl

open Replace

/-- What the two hosts have in common. -/
def hostLabels : Text := ".rtmps.".toList

/-- `_YOUTUBE_BACKUP_HOST_PREFIX`. -/
def backupHostPrefix : Text := 'a' :: hostLabels

/-- `_YOUTUBE_BACKUP_HOST_REPLACE`. -/
def backupHostReplace : Text := 'b' :: hostLabels

theorem backupHostPrefix_eq : backupHostPrefix = "a.rtmps.".toList := by decide

theorem backupHostReplace_eq : backupHostReplace = "b.rtmps.".toList := by decide

/-! ## The parts -/

/-- The scheme, if it is one of the two. -/
def scheme (url : Text) : Text :=
  if "rtmp://".toList <+: url then "rtmp://".toList
  else if "rtmps://".toList <+: url then "rtmps://".toList
  else []

/-- What stands behind the scheme. -/
def afterScheme (url : Text) : Text := url.drop (scheme url).length

/-- User info, host and port. -/
def authority (url : Text) : Text := (afterScheme url).takeWhile (· ∉ ['/', '?', '#'])

/-- The user info, with its `@`. -/
def userInfo (url : Text) : Text := ((authority url).reverse.dropWhile (· ≠ '@')).reverse

/-- Where the host begins. -/
def hostStart (url : Text) : ℕ := (scheme url).length + (userInfo url).length

/-- The host, up to the port or the path. -/
def host (url : Text) : Text := (url.drop (hostStart url)).takeWhile (· ∉ [':', '/', '?', '#'])

/-- The URL with `b.rtmps.` for the `a.rtmps.` its host begins with, and nothing else
changed. -/
def swapHost (url : Text) : Text :=
  if backupHostPrefix <+: host url then
    url.take (hostStart url) ++ (backupHostReplace ++
      url.drop (hostStart url + backupHostPrefix.length))
  else url

example : swapHost "rtmps://u:p@a.rtmps.example:443/a.rtmps.".toList =
    "rtmps://u:p@b.rtmps.example:443/a.rtmps.".toList := by decide

/-- The URL without slashes at its end, for a backup with its host swapped. -/
def baseUrl (targetUrl : Text) : WorkerRole → Text
  | .primary => stripEnd '/' targetUrl
  | .backup => stripEnd '/' (swapHost targetUrl)

/-- What follows the key. -/
def querySuffix : WorkerRole → Text
  | .primary => []
  | .backup => "?backup=1".toList

/-- **The composed URL is the one that is meant.** -/
structure Preserves (targetUrl key : Text) (role : WorkerRole) (url : Text) : Prop where
  scheme : scheme targetUrl <+: url
  composed : url = baseUrl targetUrl role ++ '/' :: (key ++ querySuffix role)

/-- There is more than a scheme and slashes; and for a backup, if `a.rtmps.` occurs at all,
then first where the host begins. -/
structure Proper (targetUrl : Text) (role : WorkerRole) : Prop where
  more : ∃ c ∈ afterScheme targetUrl, c ≠ '/'
  first : role = .backup → backupHostPrefix <:+: targetUrl →
    FirstAt backupHostPrefix targetUrl (hostStart targetUrl)

section Parts

variable {url key s : Text} {role : WorkerRole}

theorem scheme_isPrefix (url : Text) : scheme url <+: url := by
  rw [scheme]
  split
  · assumption
  split
  · assumption
  · exact List.nil_prefix

theorem scheme_append (url : Text) : scheme url ++ afterScheme url = url :=
  List.prefix_iff_eq_append.mp (scheme_isPrefix url)

theorem take_hostStart (url : Text) : url.take (hostStart url) =
    scheme url ++ (afterScheme url).take (userInfo url).length := by
  rw [hostStart]
  conv_lhs =>
    arg 2
    rw [← scheme_append url]
  exact List.take_length_add_append _

/-- The host begins with it when the URL goes on with it there. -/
theorem prefix_host_iff : backupHostPrefix <+: host url ↔
    backupHostPrefix <+: url.drop (hostStart url) := by
  refine ⟨fun h => h.trans (List.takeWhile_prefix _), ?_⟩
  rintro ⟨v, hv⟩
  rw [host, ← hv, List.takeWhile_append_of_pos (List.all_eq_true.mp (by decide))]
  exact List.prefix_append _ _

theorem eq_of_prefix_host (h : backupHostPrefix <+: host url) :
    url = url.take (hostStart url) ++ (backupHostPrefix ++
      url.drop (hostStart url + backupHostPrefix.length)) ∧
      (url.take (hostStart url)).length = hostStart url := by
  have hdrop := prefix_host_iff.mp h
  refine ⟨?_, ?_⟩
  · rw [← List.drop_drop, List.prefix_iff_eq_append.mp hdrop, List.take_append_drop]
  · have hle := hdrop.length_le
    rw [List.length_drop, show backupHostPrefix.length = 8 from rfl] at hle
    rw [List.length_take]
    omega

/-- **Replacing the first occurrence swaps the host** when that is where it is. -/
theorem replaceFirst_eq_swapHost_iff :
    replaceFirst backupHostPrefix backupHostReplace url = swapHost url ↔
      (backupHostPrefix <:+: url → FirstAt backupHostPrefix url (hostStart url)) := by
  have hne : 'a' ≠ 'b' := by decide
  rw [swapHost]
  by_cases hhost : backupHostPrefix <+: host url
  · obtain ⟨heq, hlen⟩ := eq_of_prefix_host hhost
    have hiff : replaceFirst backupHostPrefix backupHostReplace (url.take (hostStart url) ++
        (backupHostPrefix ++ url.drop (hostStart url + backupHostPrefix.length))) = _ ↔ _ :=
      replaceFirst_eq_iff hne hostLabels (url.take (hostStart url))
        (url.drop (hostStart url + backupHostPrefix.length))
    rw [if_pos hhost]
    have hin : backupHostPrefix <:+: url :=
      (prefix_host_iff.mp hhost).isInfix.trans (List.drop_suffix _ _).isInfix
    rw [forall_prop_of_true hin]
    refine Iff.trans ?_ (hiff.trans ?_)
    · rw [← heq]
      rfl
    · rw [hlen]
      exact iff_of_eq (congrArg (FirstAt backupHostPrefix · _) heq.symm)
  · rw [if_neg hhost]
    refine (replaceFirst_eq_self_iff hne hostLabels url).trans
      ⟨fun hno hin => absurd hin hno, fun hfirst hin => ?_⟩
    exact hhost (prefix_host_iff.mpr (hfirst hin).1)

theorem length_swapHost (url : Text) : (swapHost url).length = url.length := by
  rw [swapHost]
  split
  · rename_i hhost
    conv_rhs => rw [(eq_of_prefix_host hhost).1]
    rw [List.length_append, List.length_append, List.length_append, List.length_append]
    rfl
  · rfl

/-- The letters of a scheme, and the slashes behind its colon. -/
theorem stripEnd_slashes (letters : Text) {slashes : Text} (h : ∀ c ∈ slashes, c = '/') :
    stripEnd '/' (letters ++ ':' :: slashes) = letters ++ [':'] := by
  have hnil : slashes.reverse.dropWhile (· = '/') = [] :=
    List.dropWhile_eq_nil_iff.mpr fun c hc =>
      decide_eq_true (h c (List.mem_reverse.mp hc))
  rw [stripEnd_append_cons (by decide), stripEnd, hnil, List.reverse_nil]

/-- **The scheme is kept** when there is something behind it. -/
theorem scheme_isPrefix_iff (letters : Text) {rest : Text} (suffix : Text) (hkey : key ≠ [])
    (hslash : '/' ∉ key) :
    letters ++ "://".toList <+:
        stripEnd '/' (letters ++ "://".toList ++ rest) ++ '/' :: (key ++ suffix) ↔
      ∃ c ∈ rest, c ≠ '/' := by
  constructor
  · intro hpre
    by_contra hno
    have hslashes : ∀ c ∈ '/' :: '/' :: rest, c = '/' := by
      intro c hc
      rw [List.mem_cons, List.mem_cons] at hc
      rcases hc with rfl | rfl | hc
      · rfl
      · rfl
      · exact by_contra fun hne => hno ⟨c, hc, hne⟩
    have hstrip : stripEnd '/' (letters ++ "://".toList ++ rest) = letters ++ [':'] := by
      rw [List.append_assoc]
      exact stripEnd_slashes letters hslashes
    rw [hstrip, List.append_assoc, List.prefix_append_right_inj] at hpre
    -- the key would begin with the second slash
    obtain ⟨c, k, rfl⟩ := List.exists_cons_of_ne_nil hkey
    have hsecond : ['/'] <+: c :: (k ++ suffix) :=
      (List.cons_prefix_cons.mp (List.cons_prefix_cons.mp hpre).2).2
    rw [← (List.cons_prefix_cons.mp hsecond).1] at hslash
    exact hslash List.mem_cons_self
  · rintro ⟨c, hc, hne⟩
    obtain ⟨a, b, rfl⟩ := List.append_of_mem hc
    rw [← List.append_assoc, stripEnd_append_cons hne, List.append_assoc, List.append_assoc]
    exact List.prefix_append _ _

/-- The swapped URL has the scheme, and something behind it if there was. -/
theorem swapHost_eq (url : Text) : ∃ rest, swapHost url = scheme url ++ rest ∧
    ((∃ c ∈ rest, c ≠ '/') ↔ ∃ c ∈ afterScheme url, c ≠ '/') := by
  rw [swapHost]
  split
  · rename_i hhost
    obtain ⟨heq, -⟩ := eq_of_prefix_host hhost
    refine ⟨(afterScheme url).take (userInfo url).length ++ (backupHostReplace ++
      url.drop (hostStart url + backupHostPrefix.length)), ?_, ?_⟩
    · rw [take_hostStart, List.append_assoc]
    · have hdrop : url.drop (hostStart url) = (afterScheme url).drop (userInfo url).length := by
        rw [afterScheme, List.drop_drop, hostStart]
      have hmem : 'a' ∈ afterScheme url := by
        refine List.mem_of_mem_drop (i := (userInfo url).length) ?_
        rw [← hdrop]
        exact (prefix_host_iff.mp hhost).subset (by decide)
      exact iff_of_true ⟨'b', List.mem_append_right _ (List.mem_append_left _ (by decide)),
        by decide⟩ ⟨'a', hmem, by decide⟩
  · exact ⟨afterScheme url, (scheme_append url).symm, Iff.rfl⟩

theorem baseUrl_eq (url : Text) (role : WorkerRole) : ∃ rest,
    baseUrl url role = stripEnd '/' (scheme url ++ rest) ∧
      ((∃ c ∈ rest, c ≠ '/') ↔ ∃ c ∈ afterScheme url, c ≠ '/') := by
  cases role with
  | primary => exact ⟨afterScheme url, by rw [scheme_append]; rfl, Iff.rfl⟩
  | backup =>
    obtain ⟨rest, heq, hmore⟩ := swapHost_eq url
    exact ⟨rest, by rw [← heq]; rfl, hmore⟩

theorem scheme_cases (h : "rtmp://".toList <+: url ∨ "rtmps://".toList <+: url) :
    ∃ letters, scheme url = letters ++ "://".toList := by
  rw [scheme]
  split
  · exact ⟨"rtmp".toList, rfl⟩
  · rename_i hno
    rw [if_pos (h.resolve_left hno)]
    exact ⟨"rtmps".toList, rfl⟩

/-- The base is the one that is meant. -/
theorem outUrl_eq_iff (url key : Text) (role : WorkerRole) :
    outUrl url key role = baseUrl url role ++ '/' :: (key ++ querySuffix role) ↔
      (role = .backup → backupHostPrefix <:+: url →
        FirstAt backupHostPrefix url (hostStart url)) := by
  cases role with
  | primary =>
    have hout : outUrl url key .primary =
        baseUrl url .primary ++ '/' :: (key ++ querySuffix .primary) :=
      congrArg (stripEnd '/' url ++ '/' :: ·) (List.append_nil key).symm
    exact iff_of_true hout fun h => absurd h (by decide)
  | backup =>
    have hlen : (replaceFirst backupHostPrefix backupHostReplace url).length =
        (swapHost url).length :=
      (length_replaceFirst (by decide) url).trans (length_swapHost url).symm
    have hout : outUrl url key .backup =
        stripEnd '/' (replaceFirst backupHostPrefix backupHostReplace url) ++
          '/' :: (key ++ querySuffix .backup) := by
      rw [outUrl, joinKey, backupHostPrefix_eq, backupHostReplace_eq, List.append_assoc]
      rfl
    rw [forall_prop_of_true rfl, ← replaceFirst_eq_swapHost_iff, hout, baseUrl,
      List.append_left_inj]
    exact ⟨stripEnd_inj hlen, congrArg (stripEnd '/')⟩

/-- **The composed URL is the one that is meant** exactly for a proper target URL. -/
theorem preserves_iff (targetType : TargetType) (targetUrl key : Text) (role : WorkerRole)
    (url : Text) (hkey : key ≠ []) (hslash : '/' ∉ key)
    (h : composeOutUrl targetType targetUrl key role = .ok url) :
    Preserves targetUrl key role url ↔ Proper targetUrl role := by
  obtain ⟨hscheme, -, rfl⟩ := (composeOutUrl_eq_ok hkey).mp h
  obtain ⟨letters, hletters⟩ := scheme_cases hscheme
  obtain ⟨rest, hrest, hmore⟩ := baseUrl_eq targetUrl role
  have hstart : scheme targetUrl <+: baseUrl targetUrl role ++ '/' :: (key ++ querySuffix role) ↔
      ∃ c ∈ afterScheme targetUrl, c ≠ '/' := by
    rw [hrest, hletters]
    exact (scheme_isPrefix_iff letters _ hkey hslash).trans hmore
  constructor
  · intro hp
    refine ⟨hstart.mp ?_, (outUrl_eq_iff targetUrl key role).mp hp.composed⟩
    rw [← hp.composed]
    exact hp.scheme
  · intro hproper
    have heq := (outUrl_eq_iff targetUrl key role).mpr hproper.first
    refine ⟨?_, heq⟩
    rw [heq]
    exact hstart.mpr hproper.more

theorem preserves_iff_youtube :
    Preserves "rtmps://a.rtmps.youtube.com:443/live2/".toList "k".toList .backup
        "rtmps://b.rtmps.youtube.com:443/live2/k?backup=1".toList ↔
      Proper "rtmps://a.rtmps.youtube.com:443/live2/".toList .backup :=
  preserves_iff .youtube _ _ _ _ (by decide) (by decide) (by decide)

/-- The key goes to a host that does not begin with `a.rtmps.`; and a URL without a host
loses its scheme. -/
theorem other_host_swapped :
    (composeOutUrl .youtube "rtmps://aa.rtmps.example/live".toList "k".toList .backup =
        .ok "rtmps://ab.rtmps.example/live/k?backup=1".toList ∧
      ¬ Preserves "rtmps://aa.rtmps.example/live".toList "k".toList .backup
        "rtmps://ab.rtmps.example/live/k?backup=1".toList) ∧
    (composeOutUrl .twitch "rtmp://".toList "k".toList .primary = .ok "rtmp:/k".toList ∧
      ¬ Preserves "rtmp://".toList "k".toList .primary "rtmp:/k".toList) :=
  ⟨⟨by decide, fun h => absurd h.composed (by decide)⟩,
    by decide, fun h => absurd h.scheme (by decide)⟩

end Parts

end TargetUrl

end RestreamPlus
