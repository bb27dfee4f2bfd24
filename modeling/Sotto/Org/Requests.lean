import Sotto.Org.Deletion

/-!
# The requests

The requests that write to the tables of organisations, with the writes of the worker and of the
webhooks, and the program of each.
-/

namespace Sotto

namespace Org

open Core (Ident)
open Api (NewProject NewEnvironment CreateGrant RotateRequest BatchRequest AccountBundle)
open Server (Role Tier)
open Billing (Deletion)

inductive Call
  | upsertUser (userId : Ident) (email : Option String)
  | putAccount (userId : Ident) (bundle : AccountBundle)
  | resetAccount (userId : Ident) (bundle : AccountBundle)
  | createOrg (userId : Ident) (body : CreateOrg)
  | grantOrgKey (userId orgId target : Ident) (encOrgKey : Base64)
  | addMember (userId orgId : Ident) (body : AddMember)
  | inviteMember (userId orgId : Ident) (email : String)
  | updateMember (userId orgId target : Ident) (role : Role)
  | removeMember (userId orgId target : Ident)
  | createProject (userId : Ident) (body : NewProject)
  | createEnvironment (userId projectId : Ident) (body : NewEnvironment)
  | createGrant (userId envId : Ident) (body : CreateGrant)
  | rotate (userId envId : Ident) (req : RotateRequest)
  | createToken (userId envId : Ident) (body : CreateToken)
  | revokeToken (userId envId tokenId : Ident)
  | writeSecrets (userId envId : Ident) (req : BatchRequest)
  | requestDeletion (userId orgId : Ident) (body : Option RequestDeletion) (retentionDays : Int)
  | cancelDeletion (userId orgId : Ident)
  | advanceDeletion (workerId id : Ident) (change : Deletion → Deletion)
      (event : Option (Ident × String × Option String))
  | finishRecovery (workerId id orgId : Ident) (tier : Tier) (change : Deletion → Deletion)
  | purge (workerId id orgId : Ident) (change : Deletion → Deletion)
  | changePlan (orgId : Ident) (tier : Tier) (subscription : Option Ident) (action detail : String)

namespace Call

/-- The program of a request; its result is not looked at. -/
def handler : Call → Session Unit
  | upsertUser userId email => Org.upsertUser userId email
  | putAccount userId bundle => discard (Org.putAccount userId bundle)
  | resetAccount userId bundle => discard (Org.resetAccount userId bundle)
  | createOrg userId body => discard (Org.createOrg userId body)
  | grantOrgKey userId orgId target encOrgKey =>
      discard (Org.grantOrgKey userId orgId target encOrgKey)
  | addMember userId orgId body => discard (Org.addMember userId orgId body)
  | inviteMember userId orgId email => discard (Org.inviteMember userId orgId email)
  | updateMember userId orgId target role => discard (Org.updateMember userId orgId target role)
  | removeMember userId orgId target => discard (Org.removeMember userId orgId target)
  | createProject userId body => discard (Org.createProject userId body)
  | createEnvironment userId projectId body => discard (Org.createEnvironment userId projectId body)
  | createGrant userId envId body => discard (Org.createGrant userId envId body)
  | rotate userId envId req => discard (Org.rotate userId envId req)
  | createToken userId envId body => discard (Org.createToken userId envId body)
  | revokeToken userId envId tokenId => discard (Org.revokeToken userId envId tokenId)
  | writeSecrets userId envId req => discard (Org.writeSecrets userId envId req)
  | requestDeletion userId orgId body retentionDays =>
      discard (Org.requestDeletion userId orgId body retentionDays)
  | cancelDeletion userId orgId => discard (Org.cancelDeletion userId orgId)
  | advanceDeletion workerId id change event => Org.advanceDeletion workerId id change event
  | finishRecovery workerId id orgId tier change => Org.finishRecovery workerId id orgId tier change
  | purge workerId id orgId change => Org.purge workerId id orgId change
  | changePlan orgId tier subscription action detail =>
      Org.changePlan orgId tier subscription action detail

/-- Who makes a request. -/
def actor : Call → Ident
  | upsertUser userId _ | putAccount userId _ | resetAccount userId _ | createOrg userId _
  | grantOrgKey userId _ _ _ | addMember userId _ _ | inviteMember userId _ _
  | updateMember userId _ _ _ | removeMember userId _ _ | createProject userId _
  | createEnvironment userId _ _ | createGrant userId _ _ | rotate userId _ _
  | createToken userId _ _ | revokeToken userId _ _ | writeSecrets userId _ _
  | requestDeletion userId _ _ _ | cancelDeletion userId _ => userId
  | advanceDeletion workerId _ _ _ | finishRecovery workerId _ _ _ _ | purge workerId _ _ _ =>
      workerId
  | changePlan .. => .text "stripe"

end Call

end Org

end Sotto
