/-
# The routes

The routes of `server/mux.go` for users, organizations and the user's own
requests: which checks stand before which handler. With authentication on, all
of them stand behind the token's.

Key definitions: `Call.route`, `Message.after`, `Message.run`.
-/
import Chronograf.Server.Me
import Chronograf.Server.Organizations
import Chronograf.Server.Users

namespace Chronograf
namespace Server

/-- What a request asks for. -/
inductive Call
  | me
  | updateMe (body : Option MeRequest) (authorized : Except Error Unit)
  | user (route : UserRoute) (call : UserCall)
  | newOrganization (body : Option OrganizationRequest)
  | updateOrganization (body : Option OrganizationRequest) (oid : String)
  | removeOrganization (oid : String)

/-- The handler of the route, behind its checks. -/
def Call.route (s : Service) (validated : Option Principal) : Call → Handler
  | me => Server.me s
  | updateMe body authorized => Server.updateMe s validated body authorized
  | user route call => route.serve s call
  | newOrganization body => authorizedUser s superAdminStatus (Server.newOrganization s body)
  | updateOrganization body oid => authorizedUser s superAdminStatus (Server.updateOrganization s body oid)
  | removeOrganization oid => authorizedUser s superAdminStatus (Server.removeOrganization s oid)

/-- A request: its token's principal, if the token is valid, and what it asks for. -/
structure Message where
  principal : Option Principal
  call : Call

namespace Message

def handler (s : Service) (m : Message) : Handler := authAPI s m.principal (m.call.route s m.principal)

/-- The store after the request. -/
def after (s : Service) (db : Db) (m : Message) : Db := (m.handler s).after {} db

/-- The store after the requests, handled one after the other. -/
def run (s : Service) (db : Db) (ms : List Message) : Db := ms.foldl (after s) db

end Message

end Server
end Chronograf
