import Switchyard.Http.Response
import Switchyard.Subscription

/-!
# Pages

There are two pages, one that sends visitors away and the subscription, and an answer for every other
target. The target counts as it was sent. Each answer ends the connection.
-/

namespace Switchyard.Page

/-- A page. -/
def ofText (status : Status) (kind : String) (text : List Char) : Response :=
  ⟨status, [.close], [("content-type", kind.toList)], Bytes.ofText text⟩

/-- The page at the root. -/
def denied : Response :=
  ofText .forbidden "text/plain; charset=utf-8"
    "This is a Discord bot endpoint. Access denied.".toList

/-- The subscription. -/
def subscription (c : Config) (provider : List Char) : Response :=
  ofText .ok "text/plain" (Subscription.body c provider)

/-- The answer where there is no page. -/
def missing : Response :=
  ofText .notFound "text/plain" "Not Found\n".toList

/-- The path of the root. -/
def rootPath : Bytes :=
  Bytes.ofText ['/']

/-- The path of the subscription. -/
def subscriptionPath (c : Config) : Bytes :=
  Bytes.ofText ('/' :: c.subPath)

/-- The page for a target. -/
def ofTarget (c : Config) (provider : List Char) : Target → Response
  | .path bs =>
    if bs = rootPath then denied
    else if bs = subscriptionPath c then subscription c provider
    else missing
  | .asterisk | .authority | .absolute => missing

end Switchyard.Page
