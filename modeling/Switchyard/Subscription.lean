import Switchyard.Config.Basic
import Switchyard.Text.Base64

/-!
# Subscriptions

A subscription is the base64 of two links, one for each scheme, on a line of its own. Both links
name the same user, host and path and end in the same label. The text parts are put in as they are
configured.
-/

namespace Switchyard.Subscription

/-- The label of a link: the configured name before the provider's, if there is one. -/
def label (name provider : List Char) : List Char :=
  if name = [] then provider else name ++ '-' :: provider

/-- The user, as links name it. -/
def user (c : Config) : List Char :=
  c.identity.text

/-- The part of a link between the scheme and the security options. -/
def authority (c : Config) : List Char :=
  user c ++ '@' :: c.cdnHost ++ ':' :: Numeral.ofNat c.cdnTcp.toNat

/-- The part of a link after the encryption option. -/
def options (c : Config) (label : List Char) : List Char :=
  "security=tls&sni=".toList ++ c.domain ++ "&fp=firefox&type=ws&host=".toList ++ c.domain ++
    "&path=%2F".toList ++ c.wsPath ++ '#' :: label

/-- The link for VLESS clients. -/
def vlessLink (c : Config) (label : List Char) : List Char :=
  "vless://".toList ++ authority c ++ "?encryption=none&".toList ++ options c label

/-- The link for Trojan clients. -/
def trojanLink (c : Config) (label : List Char) : List Char :=
  "trojan://".toList ++ authority c ++ '?' :: options c label

/-- Both links, one on each line. -/
def links (c : Config) (provider : List Char) : List Char :=
  let label := label c.name provider
  vlessLink c label ++ '\n' :: trojanLink c label

/-- The body of the subscription's page. -/
def body (c : Config) (provider : List Char) : List Char :=
  Base64.encode (Bytes.ofText (links c provider)) ++ ['\n']

end Switchyard.Subscription
