import Mathlib.Data.List.Dedup
import Mathlib.Data.Rat.Floor
import UploadService.Release.Service

/-!
# The deployment report

`getDeploymentReport`: the delivery service, the deploy service and the offering service are
asked for their rows on a release, and the report counts devices. A delivery has a row for each
item of a device; the details of a device are those of its last row.

The details, and with them the total, are kept by device. What was downloaded and what is
installed is counted on the rows.
-/

namespace UploadService

inductive DeliveryStatus where
  | start | done | error | cancelled | pause | continue | download | deleted
  deriving DecidableEq, Repr

inductive DeployStatus where
  | start | done | installing | continue | pause | cancelled | error | uninstall
  deriving DecidableEq, Repr

/-- The device of a row. Its id is the key of the device table and not empty. -/
structure DeviceRef where
  ID : String
  name : Option String
  named : ID ≠ ""
  deriving DecidableEq, Repr

structure DeliveryRow where
  device : Option DeviceRef
  deliveryStatus : DeliveryStatus
  downloadDone : Option ℕ
  deriving DecidableEq, Repr

structure DeployRow where
  device : Option DeviceRef
  deployStatus : DeployStatus
  deployDone : Option ℕ
  deriving DecidableEq, Repr

/-- Rows of the other statuses are not looked at. -/
def DeliveryRow.isCounted (d : DeliveryRow) : Bool :=
  d.deliveryStatus != .cancelled && d.deliveryStatus != .deleted

def DeployRow.isCounted (d : DeployRow) : Bool :=
  d.deployStatus != .cancelled && d.deployStatus != .uninstall

structure DeviceDeploymentDetailDto where
  deviceId : String
  deviceName : Option String
  deliveryStatus : Option DeliveryStatus
  deployStatus : Option DeployStatus
  downloadTime : Option ℕ
  installationTime : Option ℕ
  deriving DecidableEq, Repr

structure DeploymentReportDto where
  projectId : ℕ
  releaseName : Option String
  version : String
  downloadedCount : ℕ
  installedCount : ℕ
  total : ℕ
  pending : ℕ
  deploymentPercentage : ℚ
  devices : List DeviceDeploymentDetailDto
  deriving DecidableEq

/-- What the three services answer; `none` is an answer that failed. -/
structure DeploymentAnswers where
  deliveryStatuses : Option (List DeliveryRow)
  deployStatuses : Option (List DeployRow)
  pushOfferingDevices : Option (List (Option DeviceRef))

namespace DeploymentReport

/-- `deviceMap`, in the order in which the devices came. -/
abbrev DeviceMap : Type := List (String × DeviceDeploymentDetailDto)

/-- The details of a device that no row said anything about. -/
def newDetail (device : DeviceRef) : DeviceDeploymentDetailDto where
  deviceId := device.ID
  deviceName := device.name
  deliveryStatus := none
  deployStatus := none
  downloadTime := none
  installationTime := none

/-- One delivery row: the status replaces that of an earlier row of the device. -/
def addDelivery (deviceMap : DeviceMap) (d : DeliveryRow) : DeviceMap :=
  match d.device with
  | none => deviceMap
  | some device =>
      if d.isCounted then
        let detail := (ObjectMap.get? deviceMap device.ID).getD (newDetail device)
        ObjectMap.set deviceMap device.ID
          { detail with deliveryStatus := some d.deliveryStatus, downloadTime := d.downloadDone }
      else deviceMap

/-- One deploy row; a device without a name gets that of the row. -/
def addDeploy (deviceMap : DeviceMap) (d : DeployRow) : DeviceMap :=
  match d.device with
  | none => deviceMap
  | some device =>
      if d.isCounted then
        let detail := (ObjectMap.get? deviceMap device.ID).getD (newDetail device)
        ObjectMap.set deviceMap device.ID
          { detail with
            deployStatus := some d.deployStatus
            installationTime := d.deployDone
            deviceName := detail.deviceName.or device.name }
      else deviceMap

/-- One push offering: a device that no row named. -/
def addPush (deviceMap : DeviceMap) (po : Option DeviceRef) : DeviceMap :=
  match po with
  | none => deviceMap
  | some device =>
      if ObjectMap.has deviceMap device.ID then deviceMap
      else ObjectMap.set deviceMap device.ID (newDetail device)

/-- The rows of a release. -/
structure ReleaseRows where
  deliveryStatuses : List DeliveryRow
  deployStatuses : List DeployRow
  pushOfferingDevices : List (Option DeviceRef)
  deriving DecidableEq, Repr

def deviceMap (rows : ReleaseRows) : DeviceMap :=
  rows.pushOfferingDevices.foldl addPush
    (rows.deployStatuses.foldl addDeploy (rows.deliveryStatuses.foldl addDelivery []))

/-- The devices of the delivery rows that are done; a row without one counts as one more. -/
def downloaded (rows : ReleaseRows) : List (Option String) :=
  ((rows.deliveryStatuses.filter fun d => d.deliveryStatus == .done).map fun d =>
    d.device.map DeviceRef.ID).dedup

def installed (rows : ReleaseRows) : List (Option String) :=
  ((rows.deployStatuses.filter fun d => d.deployStatus == .done).map fun d =>
    d.device.map DeviceRef.ID).dedup

def isPending (detail : DeviceDeploymentDetailDto) : Bool := detail.deliveryStatus != some .done

/-- In percent, to two decimal places; the rounding of the divisions is left out. -/
def deploymentPercentage (installedCount total : ℕ) : ℚ :=
  if 0 < total then (⌊(installedCount : ℚ) / total * 10000 + 1 / 2⌋ : ℚ) / 100 else 0

def report (projectId : ℕ) (release : Release) (version : String) (rows : ReleaseRows) :
    DeploymentReportDto :=
  let devices := (deviceMap rows).map (·.2)
  { projectId := projectId
    releaseName := release.name
    version := version
    downloadedCount := (downloaded rows).length
    installedCount := (installed rows).length
    total := (deviceMap rows).length
    pending := (devices.filter isPending).length
    deploymentPercentage :=
      deploymentPercentage (installed rows).length (deviceMap rows).length
    devices := devices }

/-- `getDeploymentReport`. -/
def getDeploymentReport (db : UploadDb) (answers : DeploymentAnswers) (params : ReleaseParams) :
    Except Exception DeploymentReportDto :=
  match db.findRelease params.projectId params.version with
  | none => .error (.notFound
      s!"Release not found for project: {params.projectId}, version: {params.version}")
  | some release => .ok (report params.projectId release params.version
      { deliveryStatuses := answers.deliveryStatuses.getD []
        deployStatuses := answers.deployStatuses.getD []
        pushOfferingDevices := answers.pushOfferingDevices.getD [] })

end DeploymentReport

end UploadService
